import RiaJit.Util.Memory
import RiaJit.Util.Typedefs

/-!
# The guest machine

What the instructions of RV64I without control flow do, on decoded instructions, by
the RISC-V specification. Reading `x0` gives zero and writing it has no effect.
-/

set_option autoImplicit false

namespace RiaJit

/-- The registers and the memory of the guest. -/
structure GuestState where
  reg : Nat → BitVec 64
  mem : Memory

namespace GuestState

/-- The value of a register operand. -/
def read (g : GuestState) (r : Nat) : BitVec 64 := if r = x0 then 0#64 else g.reg r

/-- The state with another value in a register. -/
def write (g : GuestState) (r : Nat) (v : BitVec 64) : GuestState :=
  if r = x0 then g else { g with reg := Function.update g.reg r v }

theorem write_reg_self (g : GuestState) {r : Nat} (hr : r ≠ x0) (v : BitVec 64) :
    (g.write r v).reg r = v := by
  unfold write
  rw [if_neg hr]
  exact Function.update_self ..

theorem write_reg_of_ne (g : GuestState) {r s : Nat} (hs : s ≠ r) (v : BitVec 64) :
    (g.write r v).reg s = g.reg s := by
  unfold write
  split
  · rfl
  · exact Function.update_of_ne hs ..

theorem write_mem (g : GuestState) (r : Nat) (v : BitVec 64) : (g.write r v).mem = g.mem := by
  unfold write
  split
  · rfl
  · rfl

end GuestState

/-- A 32-bit result, sign extended. -/
def sext32 (v : BitVec 32) : BitVec 64 := v.signExtend 64

/-- A truth value as a register value. -/
def boolValue (b : Bool) : BitVec 64 := if b then 1#64 else 0#64

/-- The value an instruction writes to `rd`, given the values of `rs1` and `rs2`;
`none` for an instruction that is not of this kind. -/
def RiscInstr.aluResult (instr : RiscInstr) (a b : BitVec 64) : Option (BitVec 64) :=
  let imm := instr.imm
  let a32 := a.setWidth 32
  let b32 := b.setWidth 32
  match instr.mnem with
  | .lui => some imm
  | .auipc => some (instr.addr + imm)
  | .addi => some (a + imm)
  | .slti => some (boolValue (a.slt imm))
  | .sltiu => some (boolValue (a.ult imm))
  | .xori => some (a ^^^ imm)
  | .ori => some (a ||| imm)
  | .andi => some (a &&& imm)
  | .slli => some (a <<< imm.toNat)
  | .srli => some (a >>> imm.toNat)
  | .srai => some (a.sshiftRight imm.toNat)
  | .add => some (a + b)
  | .sub => some (a - b)
  | .sll => some (a <<< (b.toNat % 64))
  | .slt => some (boolValue (a.slt b))
  | .sltu => some (boolValue (a.ult b))
  | .xor => some (a ^^^ b)
  | .srl => some (a >>> (b.toNat % 64))
  | .sra => some (a.sshiftRight (b.toNat % 64))
  | .or => some (a ||| b)
  | .and => some (a &&& b)
  | .addiw => some (sext32 (a32 + imm.setWidth 32))
  | .slliw => some (sext32 (a32 <<< imm.toNat))
  | .srliw => some (sext32 (a32 >>> imm.toNat))
  | .sraiw => some (sext32 (a32.sshiftRight imm.toNat))
  | .addw => some (sext32 (a32 + b32))
  | .subw => some (sext32 (a32 - b32))
  | .sllw => some (sext32 (a32 <<< (b.toNat % 32)))
  | .srlw => some (sext32 (a32 >>> (b.toNat % 32)))
  | .sraw => some (sext32 (a32.sshiftRight (b.toNat % 32)))
  | _ => none

/-- The value a load reads at an address. -/
def RiscInstr.loadResult (instr : RiscInstr) (mem : Memory) (a : BitVec 64) :
    Option (BitVec 64) :=
  match instr.mnem with
  | .lb => some (mem.loadSigned .m8 a)
  | .lh => some (mem.loadSigned .m16 a)
  | .lw => some (mem.loadSigned .m32 a)
  | .lbu => some (mem.load .m8 a)
  | .lhu => some (mem.load .m16 a)
  | .lwu => some (mem.load .m32 a)
  | .ld => some (mem.load .m64 a)
  | _ => none

/-- The size of a store. -/
def RiscInstr.storeSize (instr : RiscInstr) : Option MemSize :=
  match instr.mnem with
  | .sb => some .m8
  | .sh => some .m16
  | .sw => some .m32
  | .sd => some .m64
  | _ => none

/-- One instruction without control flow; other instructions leave the state alone. -/
def GuestState.step (instr : RiscInstr) (g : GuestState) : GuestState :=
  let a := g.read instr.regSrc1
  let b := g.read instr.regSrc2
  match instr.aluResult a b, instr.loadResult g.mem (a + instr.imm), instr.storeSize with
  | some v, _, _ => g.write instr.regDest v
  | none, some v, _ => g.write instr.regDest v
  | none, none, some size => { g with mem := g.mem.store size (a + instr.imm) b }
  | none, none, none => g

end RiaJit
