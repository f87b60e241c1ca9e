import Nachos.Processor.Decoding

/-!
# The processor and the R2000

What `OneInstruction` does with an instruction that does not access memory, against the reference.

* `follows_advance`: the parts of the state that are compared.
* `follows_set`, `follows_branch`, `follows_linking`, `follows_hiLo`, `follows_trapping`: the kinds
  of instructions.
* `follows_reference_iff`: for which operands the processor is an R2000.
-/

namespace Nachos.Processor

open Nachos.Lib
open Nachos.Lib.R2000 (Mnemonic)

/-! ## What is compared -/

section States
variable {μ : Type*}

/-- The state of the R2000. -/
def Machine.state (m : Machine μ) : R2000.State where
  gpr := m.registers
  hi := m.hi
  lo := m.lo
  pc := m.pc
  nextPC := m.nextPC
  delayed := if m.loadReg = 0 then none else some (m.loadReg, m.loadValue)

/-- The outcome is the one the reference prescribes for instruction `k` in word `w`, and the memory
    is still `m.memory`. -/
def Follows (k : Mnemonic) (w : Word) (m : Machine μ) (o : Outcome μ) : Prop :=
  match R2000.exec k w m.state with
  | none =>
    ∃ m', o = .exception .OverflowException m' ∧ m'.state = m.state.trapped ∧ m'.memory = m.memory
  | some e =>
    ∃ m', o = .done m' ∧ R2000.Prescribes m.state e m'.state ∧ m'.memory = m.memory

/-- The instruction does not write the register of the load before it, or it writes the value
    that is loaded. -/
def KeepsOwnWrite (k : Mnemonic) (w : Word) (m : Machine μ) : Prop :=
  ∀ e r v, R2000.exec k w m.state = some e → e.write = some (r, v) →
    r = 0 ∨ r ≠ m.loadReg ∨ v = m.loadValue

/-- The write of register `r` is not seen. -/
def Hidden (r : Reg) (m : Machine μ) : Prop := r = 0 ∨ r = m.loadReg

/-- The operands for which an instruction is right. -/
def OperandsOK (k : Mnemonic) (w : Word) (m : Machine μ) : Prop :=
  let rs := m.registers (R2000.rs w)
  let rt := m.registers (R2000.rt w)
  match k with
  -- The source computes `rs | rs`.
  | .or => Hidden (R2000.rd w) m ∨ rs ||| rt = rs
  -- The word that is shifted is an `int`.
  | .srl => Hidden (R2000.rd w) m ∨ R2000.shamt w = 0 ∨ rt.msb = false
  | .srlv => Hidden (R2000.rd w) m ∨ rs.toNat % 32 = 0 ∨ rt.msb = false
  -- The region is that of the instruction after the delay slot.
  | .j | .jal => (m.nextPC + 4).extractLsb' 28 4 = m.nextPC.extractLsb' 28 4
  -- The link is written before the operand is read.
  | .jalr => R2000.rs w ≠ R2000.rd w ∨ rs = m.nextPC + 4
  | .bltzal | .bgezal => R2000.rs w ≠ R31 ∨ rs.msb = (m.nextPC + 4).msb ∨ R2000.imm w = 1
  | .div => ¬(rs = 0x80000000 ∧ rt = -1)
  | _ => True

/-- The condition under which the processor is an R2000. -/
def Meets (k : Mnemonic) (w : Word) (m : Machine μ) : Prop :=
  KeepsOwnWrite k w m ∧ OperandsOK k w m

/-! ## Ends of instructions -/

/-- `advance` finishes the pending load. -/
theorem state_advance {m m' : Machine μ} {a : Word} (h : m.advance 0 0 a = .done m') :
    m'.state =
      { gpr := fun r => if r = 0 then 0 else if r = m.loadReg then m.loadValue else m.registers r
        hi := m.hi, lo := m.lo, pc := m.nextPC, nextPC := a, delayed := none } ∧
      m'.memory = m.memory := by
  cases h
  exact ⟨rfl, rfl⟩

@[simp] theorem state_nextPC (m : Machine μ) : m.state.nextPC = m.nextPC := rfl

@[simp] theorem state_hi (m : Machine μ) : m.state.hi = m.hi := rfl

@[simp] theorem state_lo (m : Machine μ) : m.state.lo = m.lo := rfl

theorem settled_state (m : Machine μ) {r : Reg} (hr : r ≠ 0) :
    m.state.settled r = if r = m.loadReg then m.loadValue else m.registers r := by
  simp only [R2000.State.settled, Machine.state]
  by_cases h : m.loadReg = 0
  · rw [if_pos h, h, if_neg hr]
  · rw [if_neg h]

theorem get_state {m : Machine μ} (h0 : m.registers 0 = 0) (r : Reg) :
    m.state.get r = m.registers r := by
  rw [R2000.State.get]
  split
  · rename_i h
    rw [h, h0]
  · rfl

section Ends
variable {k : Mnemonic} {w : Word} {m m₁ : Machine μ} {e : R2000.Effect} {a : Word}

/-- An instruction that ends with `advance` follows the reference if the parts of the state do. -/
theorem follows_advance (he : R2000.exec k w m.state = some e)
    (hm₁ : m₁ = { m with registers := m₁.registers, hi := m₁.hi, lo := m₁.lo }) :
    Follows k w m (m₁.advance 0 0 a) ↔
      (fun r => if r = 0 then 0 else if r = m.loadReg then m.loadValue else m₁.registers r) =
          e.gpr m.state ∧
        (∀ v, e.hi = some v → m₁.hi = v) ∧ (∀ v, e.lo = some v → m₁.lo = v) ∧
        a = e.target.getD (m.nextPC + 4) := by
  have hnext : m₁.nextPC = m.nextPC := by rw [hm₁]
  have hreg : m₁.loadReg = m.loadReg := by rw [hm₁]
  have hvalue : m₁.loadValue = m.loadValue := by rw [hm₁]
  have hmem : m₁.memory = m.memory := by rw [hm₁]
  simp only [Follows, he]
  constructor
  · rintro ⟨m', hdone, hp, -⟩
    rw [(state_advance hdone).1, hnext, hreg, hvalue] at hp
    exact ⟨hp.gpr, hp.hi, hp.lo, hp.nextPC⟩
  · rintro ⟨hgpr, hhi, hlo, ha⟩
    refine ⟨_, rfl, ?_, hmem⟩
    rw [(state_advance rfl).1, hnext, hreg, hvalue]
    exact ⟨hgpr, hhi, hlo, rfl, ha, rfl⟩

/-- Which registers are seen to be written. -/
theorem gpr_write_iff {r : Reg} {c v : Word} (hw : e.write = some (r, v)) :
    (fun x => if x = 0 then 0 else if x = m.loadReg then m.loadValue
      else (m.set r c).registers x) = e.gpr m.state ↔
      (r = 0 ∨ r ≠ m.loadReg ∨ v = m.loadValue) ∧ (Hidden r m ∨ c = v) := by
  have hgpr : ∀ x, e.gpr m.state x =
      if x = 0 then 0 else if x = r then v
        else if x = m.loadReg then m.loadValue else m.registers x := by
    intro x
    by_cases hx : x = 0
    · simp [R2000.Effect.gpr, hx]
    · simp [R2000.Effect.gpr, hw, settled_state m hx]
  simp only [Machine.set, funext_iff, hgpr, Hidden]
  constructor
  · intro h
    have hr := h r
    by_cases h₀ : r = 0
    · simp [h₀]
    · by_cases h₁ : r = m.loadReg
      · simp_all
      · simp_all
  · rintro ⟨hown, hvalue⟩ x
    by_cases h₀ : x = 0
    · simp [h₀]
    · by_cases hx : x = r
      · subst hx
        by_cases h₁ : x = m.loadReg <;> simp_all
      · simp [hx]

/-- No register is written. -/
theorem gpr_none (hw : e.write = none) :
    (fun x => if x = 0 then 0 else if x = m.loadReg then m.loadValue else m.registers x) =
      e.gpr m.state := by
  funext x
  by_cases hx : x = 0
  · simp [R2000.Effect.gpr, hx]
  · simp [R2000.Effect.gpr, hw, settled_state m hx]

theorem keepsOwnWrite_some {r : Reg} {v : Word} (he : R2000.exec k w m.state = some e)
    (hw : e.write = some (r, v)) :
    KeepsOwnWrite k w m ↔ (r = 0 ∨ r ≠ m.loadReg ∨ v = m.loadValue) := by
  constructor
  · intro h
    exact h e r v he hw
  · intro h e' r' v' he' hw'
    obtain rfl : e = e' := Option.some.inj (he.symm.trans he')
    cases hw.symm.trans hw'
    exact h

theorem keepsOwnWrite_none (he : R2000.exec k w m.state = some e) (hw : e.write = none) :
    KeepsOwnWrite k w m := by
  intro e' r' v' he' hw'
  obtain rfl : e = e' := Option.some.inj (he.symm.trans he')
  simp [hw] at hw'

/-- An instruction that writes the value `c` into `r`, and goes to `a` after its delay slot. -/
theorem follows_set {r : Reg} {c v : Word} {target : Option Word}
    (he : R2000.exec k w m.state = some ⟨some (r, v), some m.hi, some m.lo, target⟩)
    (hok : (Hidden r m ∨ c = v) ∧ a = target.getD (m.nextPC + 4) ↔ OperandsOK k w m) :
    Follows k w m ((m.set r c).advance 0 0 a) ↔ Meets k w m := by
  rw [follows_advance he rfl, gpr_write_iff rfl, Meets, keepsOwnWrite_some he rfl, ← hok, and_assoc]
  simp [Machine.set]

/-- A branch or a jump. -/
theorem follows_branch {q : Bool} {t : Word}
    (he : R2000.exec k w m.state = some (R2000.branches m.state q t))
    (hok : a = (if q then some t else none).getD (m.nextPC + 4) ↔ OperandsOK k w m) :
    Follows k w m (m.advance 0 0 a) ↔ Meets k w m := by
  rw [follows_advance he rfl, Meets, ← hok]
  simp only [keepsOwnWrite_none he rfl, true_and]
  exact ⟨fun h => h.2.2.2, fun h => ⟨gpr_none rfl, by simp [R2000.branches],
    by simp [R2000.branches], h⟩⟩

/-- A branch or a jump that links. -/
theorem follows_linking {r : Reg} {q : Bool} {t : Word}
    (he : R2000.exec k w m.state = some (R2000.linking m.state (R2000.branches m.state q t) r))
    (hok : a = (if q then some t else none).getD (m.nextPC + 4) ↔ OperandsOK k w m) :
    Follows k w m ((m.set r (m.nextPC + 4)).advance 0 0 a) ↔ Meets k w m :=
  follows_set he ((and_iff_right (.inr rfl)).trans hok)

/-- An instruction that writes `HI` and `LO`. -/
theorem follows_hiLo {hi lo : Word} {hi' lo' : Option Word}
    (he : R2000.exec k w m.state = some ⟨none, hi', lo', none⟩)
    (hhi : ∀ v, hi' = some v → hi = v) (hlo : ∀ v, lo' = some v → lo = v)
    (hok : OperandsOK k w m) :
    Follows k w m ({ m with hi := hi, lo := lo }.advance 0 0 (m.nextPC + 4)) ↔ Meets k w m := by
  rw [follows_advance he rfl, Meets]
  simp only [keepsOwnWrite_none he rfl, hok, and_self, iff_true]
  exact ⟨gpr_none rfl, hhi, hlo, rfl⟩

/-- The overflow exception. -/
theorem follows_raise (he : R2000.exec k w m.state = none) :
    Follows k w m (m.RaiseException .OverflowException 0) := by
  simp only [Follows, he]
  refine ⟨_, rfl, ?_, rfl⟩
  have hgpr : (fun r => if r = 0 then 0 else m.state.settled r) =
      fun r => if r = 0 then 0 else if r = m.loadReg then m.loadValue else m.registers r := by
    funext r
    by_cases hr : r = 0
    · simp [hr]
    · rw [if_neg hr, if_neg hr, settled_state m hr]
  rw [R2000.State.trapped, hgpr]
  rfl

/-- An instruction that writes what the reference writes. -/
theorem follows_writes {r : Reg} {c : Word}
    (he : R2000.exec k w m.state = some (R2000.writes m.state r c)) (hok : OperandsOK k w m) :
    Follows k w m ((m.set r c).advance 0 0 (m.nextPC + 4)) ↔ Meets k w m :=
  follows_set he ⟨fun _ => hok, fun _ => ⟨.inr rfl, rfl⟩⟩

/-- An instruction that may overflow. -/
theorem follows_trapping {p : Prop} [Decidable p] {r : Reg} {c : Word} {x : ℤ}
    (he : R2000.exec k w m.state = R2000.trapping m.state r x)
    (hp : p ↔ ¬(-2 ^ 31 ≤ x ∧ x < 2 ^ 31)) (hc : c = BitVec.ofInt 32 x) (hok : OperandsOK k w m) :
    Follows k w m (if p then m.RaiseException .OverflowException 0
      else (m.set r c).advance 0 0 (m.nextPC + 4)) ↔ Meets k w m := by
  rw [R2000.trapping] at he
  by_cases h : -2 ^ 31 ≤ x ∧ x < 2 ^ 31
  · rw [if_pos h, ← hc] at he
    rw [if_neg (by rw [hp]; exact not_not.2 h)]
    exact follows_writes he hok
  · rw [if_neg h] at he
    rw [if_pos (hp.2 h)]
    refine iff_of_true (follows_raise he) ⟨?_, hok⟩
    intro e r v he'
    rw [he] at he'
    cases he'

end Ends

/-! ## Values -/

theorem toNat_and_31 (x : Word) : (x &&& 0x1f).toNat = x.toNat % 32 := toNat_mask (n := 5) x rfl

theorem lui_value (x : BitVec 16) : x.signExtend 32 <<< 16 = (x ++ 0#16 : Word) := by
  apply BitVec.eq_of_toNat_eq
  have hx := x.isLt
  rw [BitVec.toNat_shiftLeft, BitVec.toNat_signExtend, BitVec.toNat_setWidth, BitVec.toNat_append,
    Nat.shiftLeft_eq, Nat.shiftLeft_eq]
  simp only [BitVec.toNat_ofNat, Nat.zero_mod, Nat.or_zero]
  split <;> omega

/-- The arithmetic shift is the logical one where no ones come in. -/
theorem sshiftRight_eq_iff (x : Word) {n : ℕ} (hn : n < 32) :
    x.sshiftRight n = x >>> n ↔ n = 0 ∨ x.msb = false := by
  constructor
  · intro h
    by_contra hc
    obtain ⟨hn0, hmsb⟩ := not_or.1 hc
    have h' := congrArg BitVec.msb h
    rw [BitVec.msb_sshiftRight, BitVec.msb_ushiftRight, (Bool.not_eq_false _).mp hmsb] at h'
    simp [show 0 < n by omega] at h'
  · rintro (rfl | hmsb)
    · simp
    · exact BitVec.sshiftRight_eq_of_msb_false hmsb

theorem signBit_eq_zero_iff (x : Word) : x &&& SIGN_BIT = 0#32 ↔ 0 ≤ x.toInt := by
  rw [show 0#32 = (0 : Word) from rfl, and_signBit, BitVec.msb_eq_toInt]
  simp

/-- The address of a jump. -/
theorem jump_value (pc : Word) (t : BitVec 26) :
    pc &&& (0xf0000000 : Word) ||| t.setWidth 32 <<< 2 =
      (pc.extractLsb' 28 4 ++ t ++ 0#2 : Word) := by
  have hmask : ∀ i < 32, (0xf0000000 : Word).getLsbD i = decide (28 ≤ i) := by decide
  apply BitVec.eq_of_getLsbD_eq
  intro i hi
  simp only [BitVec.getLsbD_or, BitVec.getLsbD_and, hmask i hi, BitVec.getLsbD_shiftLeft,
    BitVec.getLsbD_setWidth, BitVec.getLsbD_append, BitVec.getLsbD_extractLsb', BitVec.getLsbD_zero]
  by_cases h2 : i < 2
  · simp [h2, show ¬28 ≤ i by omega]
  · by_cases h28 : i < 28
    · simp [h2, hi, show ¬28 ≤ i by omega, show i - 2 < 26 by omega, show i - 2 < 32 by omega]
    · simp [h2, show 28 ≤ i by omega, show ¬i - 2 < 26 by omega, show i - 2 - 26 < 4 by omega,
        show 28 + (i - 2 - 26) = i by omega, BitVec.getLsbD_of_ge t (i - 2) (by omega)]

theorem jump_inj {a b : BitVec 4} {t : BitVec 26} :
    (a ++ t ++ 0#2 : Word) = (b ++ t ++ 0#2 : Word) ↔ a = b := by
  constructor
  · intro h
    apply BitVec.eq_of_getLsbD_eq
    intro i hi
    have hbit : ∀ c : BitVec 4, (c ++ t ++ 0#2 : Word).getLsbD (28 + i) = c.getLsbD i := by
      intro c
      simp only [BitVec.getLsbD_append]
      simp [show ¬28 + i < 2 by omega, show ¬28 + i - 2 < 26 by omega,
        show 28 + i - 2 - 26 = i by omega]
    rw [← hbit, h, hbit]
  · rintro rfl
    rfl

/-- The sign bits agree. -/
theorem xor_signBit (x y : Word) :
    (x ^^^ y) &&& SIGN_BIT = 0 ↔ (x.toInt < 0 ↔ y.toInt < 0) := by
  rw [and_signBit, BitVec.msb_xor, BitVec.msb_eq_toInt, BitVec.msb_eq_toInt]
  by_cases h₁ : x.toInt < 0 <;> by_cases h₂ : y.toInt < 0 <;> simp [h₁, h₂]

theorem add_overflow_iff (x y : Word) :
    (x ^^^ y) &&& SIGN_BIT = 0 ∧ (x ^^^ (x + y)) &&& SIGN_BIT ≠ 0 ↔
      ¬(-2 ^ 31 ≤ x.toInt + y.toInt ∧ x.toInt + y.toInt < 2 ^ 31) := by
  have hx := x.toInt_lt
  have hx' := x.le_toInt
  have hy := y.toInt_lt
  have hy' := y.le_toInt
  rw [ne_eq, xor_signBit, xor_signBit, BitVec.toInt_add, Int.bmod_def]
  split <;> omega

theorem sub_overflow_iff (x y : Word) :
    (x ^^^ y) &&& SIGN_BIT ≠ 0 ∧ (x ^^^ (x - y)) &&& SIGN_BIT ≠ 0 ↔
      ¬(-2 ^ 31 ≤ x.toInt - y.toInt ∧ x.toInt - y.toInt < 2 ^ 31) := by
  have hx := x.toInt_lt
  have hx' := x.le_toInt
  have hy := y.toInt_lt
  have hy' := y.le_toInt
  rw [ne_eq, ne_eq, xor_signBit, xor_signBit, BitVec.toInt_sub, Int.bmod_def]
  split <;> omega

theorem ofInt_add_toInt (x y : Word) : x + y = BitVec.ofInt 32 (x.toInt + y.toInt) := by
  rw [BitVec.ofInt_add, BitVec.ofInt_toInt, BitVec.ofInt_toInt]

theorem ofInt_sub_toInt (x y : Word) : x - y = BitVec.ofInt 32 (x.toInt - y.toInt) := by
  rw [Int.sub_eq_add_neg, BitVec.ofInt_add, BitVec.ofInt_neg, BitVec.ofInt_toInt,
    BitVec.ofInt_toInt, BitVec.sub_eq_add_neg]

/-- Where a branch goes. -/
theorem taken_getD {p : Prop} [Decidable p] {q : Bool} (h : q = true ↔ p) (a b : Word) :
    (if q then some a else none).getD b = if p then a else b := by
  by_cases hp : p
  · simp [hp, h.2 hp]
  · have hq : q = false := by
      rw [← Bool.not_eq_true, h]
      exact hp
    simp [hp, hq]

theorem ite_eq_ite_iff {p q : Prop} [Decidable p] [Decidable q] {a b : Word} :
    ((if p then a else b) = if q then a else b) ↔ (p ↔ q) ∨ a = b := by
  by_cases hp : p <;> by_cases hq : q <;> simp [hp, hq, eq_comm]

/-- A branch whose target is the instruction after its delay slot. -/
theorem branch_eq_next_iff (pc : Word) (x : BitVec 16) :
    pc + x.signExtend 32 <<< 2 = pc + 4 ↔ x = 1 := by
  have hx := x.isLt
  have h4 : (4 : Word).toNat = 4 := rfl
  have h1 : (1 : BitVec 16).toNat = 1 := rfl
  rw [BitVec.add_right_inj, ← BitVec.toNat_inj, ← BitVec.toNat_inj, BitVec.toNat_shiftLeft,
    BitVec.toNat_signExtend, BitVec.toNat_setWidth, Nat.shiftLeft_eq, h4, h1, BitVec.msb_eq_decide]
  simp only [decide_eq_true_eq]
  split <;> omega

/-- The sign that a linking branch finds is that of the link if it reads the link's register. -/
theorem sign_linked_iff (m : Machine μ) (r : Reg) (link : Word) :
    ((m.set R31 link).registers r &&& SIGN_BIT = 0 ↔ m.registers r &&& SIGN_BIT = 0) ↔
      r ≠ R31 ∨ (m.registers r).msb = link.msb := by
  rw [and_signBit, and_signBit]
  simp only [Machine.set]
  by_cases h : r = R31
  · simp only [h, if_true, ne_eq, not_true_eq_false, false_or]
    cases link.msb <;> cases (m.registers R31).msb <;> simp
  · simp [h]

theorem wide_hi (p : Word × Word) : (wide p).extractLsb' 32 32 = p.1 := by
  apply BitVec.eq_of_toNat_eq
  have h₁ := p.1.isLt
  have h₂ := p.2.isLt
  rw [BitVec.extractLsb'_toNat, toNat_wide, Nat.shiftRight_eq_div_pow]
  omega

theorem wide_lo (p : Word × Word) : (wide p).extractLsb' 0 32 = p.2 := by
  apply BitVec.eq_of_toNat_eq
  have h₂ := p.2.isLt
  rw [BitVec.extractLsb'_toNat, toNat_wide, Nat.shiftRight_zero]
  omega

/-! ## The instructions -/

section Instructions
variable {k : Mnemonic} {w : Word} {m : Machine μ} (port : Port μ)

theorem follows_arithmetic (hk : R2000.decode w = some k) (h0 : m.registers 0 = 0)
    (h : k ∈ [.add, .addi, .sub, .addu, .addiu, .subu]) :
    Follows k w m (execute port m (Decode w)) ↔ Meets k w m := by
  have hop := opCode_of_decode hk
  have hextra := extra_of_decode hk
  simp only [List.mem_cons, List.not_mem_nil, or_false] at h
  obtain rfl | rfl | rfl | rfl | rfl | rfl := h <;>
    simp only [execute, hop, opCode, hextra, format, extra_imm, decode_rs, decode_rt, decode_rd]
  · exact follows_trapping (by simp only [R2000.exec, get_state h0]) (add_overflow_iff _ _)
      (ofInt_add_toInt _ _) trivial
  · refine follows_trapping (by simp only [R2000.exec, get_state h0]) ?_
      (ofInt_add_toInt _ _) trivial
    rw [BitVec.xor_comm, BitVec.add_comm, Int.add_comm]
    exact add_overflow_iff _ _
  · exact follows_trapping (by simp only [R2000.exec, get_state h0]) (sub_overflow_iff _ _)
      (ofInt_sub_toInt _ _) trivial
  all_goals exact follows_writes (by simp only [R2000.exec, get_state h0]) trivial

/-- The result of `NOR` is complemented, the immediates of the logical instructions are not
    sign-extended; `OR` is the exception. -/
theorem follows_logical (hk : R2000.decode w = some k) (h0 : m.registers 0 = 0)
    (h : k ∈ [.or, .and, .andi, .ori, .xor, .xori, .nor, .lui]) :
    Follows k w m (execute port m (Decode w)) ↔ Meets k w m := by
  have hop := opCode_of_decode hk
  have hextra := extra_of_decode hk
  simp only [List.mem_cons, List.not_mem_nil, or_false] at h
  obtain rfl | rfl | rfl | rfl | rfl | rfl | rfl | rfl := h <;>
    simp only [execute, hop, opCode, hextra, format, extra_imm, imm_mask, decode_rs, decode_rt,
      decode_rd]
  · refine follows_set (by simp only [R2000.exec, get_state h0]; rfl) ?_
    simp only [OperandsOK, BitVec.or_self, Option.getD_none, and_true]
    rw [eq_comm]
  all_goals exact follows_writes (by simp only [R2000.exec, get_state h0, lui_value]) trivial

theorem follows_shift (hk : R2000.decode w = some k) (h0 : m.registers 0 = 0)
    (h : k ∈ [.srl, .srlv, .sll, .sllv, .sra, .srav]) :
    Follows k w m (execute port m (Decode w)) ↔ Meets k w m := by
  have hop := opCode_of_decode hk
  have hextra := extra_of_decode hk
  simp only [List.mem_cons, List.not_mem_nil, or_false] at h
  obtain rfl | rfl | rfl | rfl | rfl | rfl := h <;>
    simp only [execute, hop, opCode, hextra, format, extra_shamt, toNat_and_31, decode_rs,
      decode_rt, decode_rd]
  · refine follows_set (by simp only [R2000.exec, get_state h0]; rfl) ?_
    have hzero : (R2000.shamt w).toNat = 0 ↔ R2000.shamt w = 0 := by
      rw [← BitVec.toNat_inj]
      rfl
    rw [sshiftRight_eq_iff _ (R2000.shamt w).isLt, hzero]
    simp [OperandsOK]
  · refine follows_set (by simp only [R2000.exec, get_state h0]; rfl) ?_
    rw [sshiftRight_eq_iff _ (Nat.mod_lt _ (by omega))]
    simp [OperandsOK]
  all_goals exact follows_writes (by simp only [R2000.exec, get_state h0]) trivial

theorem follows_compare (hk : R2000.decode w = some k) (h0 : m.registers 0 = 0)
    (h : k ∈ [.slt, .slti, .sltu, .sltiu]) :
    Follows k w m (execute port m (Decode w)) ↔ Meets k w m := by
  have hop := opCode_of_decode hk
  have hextra := extra_of_decode hk
  simp only [List.mem_cons, List.not_mem_nil, or_false] at h
  obtain rfl | rfl | rfl | rfl := h <;>
    simp only [execute, hop, opCode, hextra, format, extra_imm, decode_rs, decode_rt, decode_rd]
  all_goals
    refine follows_writes ?_ trivial
    simp only [R2000.exec, get_state h0, R2000.flag, BitVec.slt, BitVec.lt_def, decide_eq_true_eq]

theorem follows_branches (hk : R2000.decode w = some k) (h0 : m.registers 0 = 0)
    (h : k ∈ [.beq, .bne, .blez, .bgtz, .bltz, .bgez]) :
    Follows k w m (execute port m (Decode w)) ↔ Meets k w m := by
  have hop := opCode_of_decode hk
  have hextra := extra_of_decode hk
  simp only [List.mem_cons, List.not_mem_nil, or_false] at h
  obtain rfl | rfl | rfl | rfl | rfl | rfl := h <;>
    simp only [execute, hop, opCode, hextra, format, extra_imm, decode_rs, decode_rt]
  all_goals
    refine follows_branch (by simp only [R2000.exec, get_state h0]; rfl) ?_
    refine ⟨fun _ => trivial, fun _ => (taken_getD ?_ _ _).symm⟩
    simp [BitVec.sle, BitVec.slt, signBit_eq_zero_iff]

/-- The branches that link read their operand after the link is written. -/
theorem follows_link (hk : R2000.decode w = some k) (h0 : m.registers 0 = 0)
    (h : k ∈ [.bltzal, .bgezal]) :
    Follows k w m (execute port m (Decode w)) ↔ Meets k w m := by
  have hop := opCode_of_decode hk
  have hextra := extra_of_decode hk
  simp only [List.mem_cons, List.not_mem_nil, or_false] at h
  obtain rfl | rfl := h <;>
    simp only [execute, hop, opCode, hextra, format, extra_imm, decode_rs]
  · refine follows_linking (by simp only [R2000.exec, get_state h0]; rfl) ?_
    rw [taken_getD (p := m.registers (R2000.rs w) &&& SIGN_BIT ≠ 0)
      (by simp [signBit_eq_zero_iff]), state_nextPC, IndexToAddr, ite_eq_ite_iff, ne_eq,
      ne_eq, not_iff_not, sign_linked_iff, branch_eq_next_iff, or_assoc]
    rfl
  · refine follows_linking (by simp only [R2000.exec, get_state h0]; rfl) ?_
    rw [taken_getD (p := m.registers (R2000.rs w) &&& SIGN_BIT = 0)
      (by simp [signBit_eq_zero_iff]), state_nextPC, IndexToAddr, ite_eq_ite_iff,
      sign_linked_iff, branch_eq_next_iff, or_assoc]
    rfl

theorem follows_jump (hk : R2000.decode w = some k) (h0 : m.registers 0 = 0)
    (h : k ∈ [.j, .jal, .jr, .jalr]) :
    Follows k w m (execute port m (Decode w)) ↔ Meets k w m := by
  have hop := opCode_of_decode hk
  have hextra := extra_of_decode hk
  simp only [List.mem_cons, List.not_mem_nil, or_false] at h
  obtain rfl | rfl | rfl | rfl := h <;>
    simp only [execute, hop, opCode, hextra, format, extra_target, IndexToAddr, jump_value,
      decode_rs, decode_rd]
  · exact follows_branch rfl jump_inj
  · exact follows_linking rfl jump_inj
  · refine follows_branch (by simp only [R2000.exec, get_state h0]; rfl) ?_
    exact ⟨fun _ => trivial, fun _ => rfl⟩
  · refine follows_linking (by simp only [R2000.exec, get_state h0]; rfl) ?_
    simp only [OperandsOK, Machine.set, if_true, Option.getD_some]
    by_cases hr : R2000.rs w = R2000.rd w
    · simp [hr, eq_comm]
    · simp [hr]

theorem follows_moveHiLo (hk : R2000.decode w = some k) (h0 : m.registers 0 = 0)
    (h : k ∈ [.mfhi, .mflo, .mthi, .mtlo]) :
    Follows k w m (execute port m (Decode w)) ↔ Meets k w m := by
  have hop := opCode_of_decode hk
  simp only [List.mem_cons, List.not_mem_nil, or_false] at h
  obtain rfl | rfl | rfl | rfl := h <;>
    simp only [execute, hop, opCode, decode_rs, decode_rd]
  · exact follows_writes rfl trivial
  · exact follows_writes rfl trivial
  · exact follows_hiLo (by simp only [R2000.exec, get_state h0]; rfl) (by simp) (by simp) trivial
  · exact follows_hiLo (by simp only [R2000.exec, get_state h0]; rfl) (by simp) (by simp) trivial

theorem follows_multiply (hk : R2000.decode w = some k) (h0 : m.registers 0 = 0)
    (h : k ∈ [.mult, .multu]) :
    Follows k w m (execute port m (Decode w)) ↔ Meets k w m := by
  have hop := opCode_of_decode hk
  simp only [List.mem_cons, List.not_mem_nil, or_false] at h
  obtain rfl | rfl := h <;> simp only [execute, hop, opCode, decode_rs, decode_rt]
  · refine follows_hiLo (by simp only [R2000.exec, get_state h0, ← wide_mult_signed]; rfl)
      ?_ ?_ trivial
    · simp [wide_hi]
    · simp [wide_lo]
  · refine follows_hiLo (by simp only [R2000.exec, get_state h0, ← wide_mult_unsigned]; rfl)
      ?_ ?_ trivial
    · simp [wide_hi]
    · simp [wide_lo]

theorem follows_divide (hk : R2000.decode w = some k) (h0 : m.registers 0 = 0)
    (h : k ∈ [.div, .divu]) :
    Follows k w m (execute port m (Decode w)) ↔ Meets k w m := by
  have hop := opCode_of_decode hk
  simp only [List.mem_cons, List.not_mem_nil, or_false] at h
  obtain rfl | rfl := h <;> simp only [execute, hop, opCode, decode_rs, decode_rt]
  · by_cases hzero : m.registers (R2000.rt w) = 0
    · rw [if_pos hzero]
      refine follows_hiLo (by simp only [R2000.exec, get_state h0, hzero, if_true]; rfl)
        (by simp) (by simp) ?_
      rintro ⟨-, hrt⟩
      rw [hzero] at hrt
      exact absurd hrt (by decide)
    rw [if_neg hzero]
    by_cases hov : m.registers (R2000.rs w) = 0x80000000 ∧ m.registers (R2000.rt w) = -1
    · rw [if_pos hov]
      refine iff_of_false ?_ fun h => h.2 hov
      simp only [Follows, R2000.exec, get_state h0, hzero, if_false]
      rintro ⟨m', h, -⟩
      cases h
    · rw [if_neg hov]
      refine follows_hiLo (by simp only [R2000.exec, get_state h0, hzero, if_false]; rfl) ?_ ?_ hov
      · simp [← BitVec.toInt_srem]
      · rw [← BitVec.toInt_sdiv_of_ne_or_ne]
        · simp
        · exact not_and_or.1 hov
  · by_cases hzero : m.registers (R2000.rt w) = 0
    · rw [if_pos hzero]
      exact follows_hiLo (by simp only [R2000.exec, get_state h0, hzero, if_true]; rfl)
        (by simp) (by simp) trivial
    · rw [if_neg hzero]
      refine follows_hiLo (by simp only [R2000.exec, get_state h0, hzero, if_false]; rfl)
        ?_ ?_ trivial
      · simp [← BitVec.toNat_umod]
      · simp [← BitVec.toNat_udiv]

/-- Every instruction. -/
theorem follows_execute (hk : R2000.decode w = some k) (h0 : m.registers 0 = 0) :
    Follows k w m (execute port m (Decode w)) ↔ Meets k w m := by
  cases k with
  | add | addi | sub | addu | addiu | subu => exact follows_arithmetic port hk h0 (by simp)
  | or | and | andi | ori | xor | xori | nor | lui => exact follows_logical port hk h0 (by simp)
  | srl | srlv | sll | sllv | sra | srav => exact follows_shift port hk h0 (by simp)
  | slt | slti | sltu | sltiu => exact follows_compare port hk h0 (by simp)
  | beq | bne | blez | bgtz | bltz | bgez => exact follows_branches port hk h0 (by simp)
  | bltzal | bgezal => exact follows_link port hk h0 (by simp)
  | j | jal | jr | jalr => exact follows_jump port hk h0 (by simp)
  | mfhi | mflo | mthi | mtlo => exact follows_moveHiLo port hk h0 (by simp)
  | mult | multu => exact follows_multiply port hk h0 (by simp)
  | div | divu => exact follows_divide port hk h0 (by simp)

/-- **`OneInstruction` follows the reference exactly if `Meets`**, for every instruction that does
    not access memory, on every register file and with every pending load. -/
theorem follows_reference_iff {mem : μ} (h0 : m.registers 0 = 0)
    (hfetch : port.ReadMem m m.pc 4 = .ok (w, mem)) (hk : R2000.decode w = some k) :
    Follows k w { m with memory := mem } (OneInstruction port m) ↔ Meets k w m := by
  rw [OneInstruction, hfetch]
  exact follows_execute port hk h0

end Instructions

end States

/-- A memory that holds one word everywhere. -/
def constantPort : Port Word where
  ReadMem m _ _ := .ok (m.memory, m.memory)
  WriteMem m _ _ _ := .ok m.memory

/-- `r2` is one, the other registers are zero. -/
def oneInR2 (w : Word) : Machine Word where
  registers r := if r = 2 then 1 else 0
  hi := 0
  lo := 0
  pc := 0
  nextPC := 4
  prevPC := 0
  loadReg := 0
  loadValue := 0
  badVAddr := 0
  memory := w

/-- `ADDU r3, r1, r2`. -/
theorem follows_reference_iff_addu :
    Follows .addu 0x00221821 (oneInR2 0x00221821)
        (OneInstruction constantPort (oneInR2 0x00221821)) ↔
      Meets .addu 0x00221821 (oneInR2 0x00221821) :=
  follows_reference_iff (k := .addu) (w := 0x00221821) constantPort rfl rfl (by decide)

/-- `OR r3, r1, r2`. -/
theorem or_differs :
    R2000.decode 0x00221825 = some .or ∧ (oneInR2 0x00221825).registers 0 = 0 ∧
      ¬Follows .or 0x00221825 (oneInR2 0x00221825)
        (OneInstruction constantPort (oneInR2 0x00221825)) := by
  refine ⟨by decide, rfl, fun h => ?_⟩
  have hmeets := (follows_execute (k := .or) (w := 0x00221825) (m := oneInR2 0x00221825)
    constantPort (by decide) rfl).1 h
  exact absurd hmeets.2 (by simp only [OperandsOK, Hidden]; decide)

end Nachos.Processor
