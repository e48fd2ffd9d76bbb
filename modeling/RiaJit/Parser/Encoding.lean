import RiaJit.Parser.Parser
import Mathlib.Tactic.IntervalCases

/-!
# Decoding undoes encoding

The instructions of RV64IMAFD with Zicsr and their 32-bit words, and what the
parser reads back from a word. An instruction is grouped with those of its format;
a word is assembled from the six fields of the R format, and the other formats
spread their immediate over those fields.
-/

set_option autoImplicit false

namespace RiaJit.Encoding

open RiaJit.Parser

/-! ## Words -/

/-- A field at a bit position of a word of width `w`. -/
def place {n : Nat} (w : Nat) (field : BitVec n) (pos : Nat) : BitVec w :=
  field.setWidth w <<< pos

/-- The word with the given fields of the R format. The two low bits are set in
every 32-bit instruction. -/
def word (funct7 : BitVec 7) (rs2 rs1 : BitVec 5) (funct3 : BitVec 3) (rd opcode : BitVec 5) :
    BitVec 32 :=
  place 32 funct7 25 ||| place 32 rs2 20 ||| place 32 rs1 15 ||| place 32 funct3 12 |||
    place 32 rd 7 ||| place 32 opcode 2 ||| 3#32

/-- The I format. -/
abbrev wordI (imm : BitVec 12) (rs1 : BitVec 5) (funct3 : BitVec 3) (rd opcode : BitVec 5) :
    BitVec 32 :=
  word (imm.extractLsb' 5 7) (imm.extractLsb' 0 5) rs1 funct3 rd opcode

/-- A shift with a six-bit amount, under six bits of function code. -/
abbrev wordShift (funct6 : BitVec 6) (shamt : BitVec 6) (rs1 : BitVec 5) (funct3 : BitVec 3)
    (rd opcode : BitVec 5) : BitVec 32 :=
  word (place 7 funct6 1 ||| place 7 (shamt.extractLsb' 5 1) 0) (shamt.extractLsb' 0 5) rs1
    funct3 rd opcode

/-- The S format. -/
abbrev wordS (imm : BitVec 12) (rs2 rs1 : BitVec 5) (funct3 : BitVec 3) (opcode : BitVec 5) :
    BitVec 32 :=
  word (imm.extractLsb' 5 7) rs2 rs1 funct3 (imm.extractLsb' 0 5) opcode

/-- The B format; `imm` holds bits 12:1 of the offset. -/
abbrev wordB (imm : BitVec 12) (rs2 rs1 : BitVec 5) (funct3 : BitVec 3) (opcode : BitVec 5) :
    BitVec 32 :=
  word (place 7 (imm.extractLsb' 11 1) 6 ||| place 7 (imm.extractLsb' 4 6) 0) rs2 rs1 funct3
    (place 5 (imm.extractLsb' 0 4) 1 ||| place 5 (imm.extractLsb' 10 1) 0) opcode

/-- The U format. -/
abbrev wordU (imm : BitVec 20) (rd opcode : BitVec 5) : BitVec 32 :=
  word (imm.extractLsb' 13 7) (imm.extractLsb' 8 5) (imm.extractLsb' 3 5) (imm.extractLsb' 0 3)
    rd opcode

/-- The J format; `imm` holds bits 20:1 of the offset. -/
abbrev wordJ (imm : BitVec 20) (rd opcode : BitVec 5) : BitVec 32 :=
  word (place 7 (imm.extractLsb' 19 1) 6 ||| place 7 (imm.extractLsb' 4 6) 0)
    (place 5 (imm.extractLsb' 0 4) 1 ||| place 5 (imm.extractLsb' 10 1) 0)
    (imm.extractLsb' 14 5) (imm.extractLsb' 11 3) rd opcode

/-! ## Instructions -/

/-- The two operand widths of loads, atomics and floating point instructions. -/
inductive Width where
  | w | d
  deriving DecidableEq, Repr

/-- Register-register operations of RV64IM. -/
inductive ROp where
  | add | sub | sll | slt | sltu | xor | srl | sra | or | and
  | addw | subw | sllw | srlw | sraw
  | mul | mulh | mulhsu | mulhu | div | divu | rem | remu
  | mulw | divw | divuw | remw | remuw
  deriving DecidableEq, Repr

/-- `funct7`, `funct3` and the opcode of a register-register operation. -/
def ROp.code : ROp → BitVec 7 × BitVec 3 × BitVec 5
  | .add => (0b0000000, 0b000, 0b01100)
  | .sub => (0b0100000, 0b000, 0b01100)
  | .sll => (0b0000000, 0b001, 0b01100)
  | .slt => (0b0000000, 0b010, 0b01100)
  | .sltu => (0b0000000, 0b011, 0b01100)
  | .xor => (0b0000000, 0b100, 0b01100)
  | .srl => (0b0000000, 0b101, 0b01100)
  | .sra => (0b0100000, 0b101, 0b01100)
  | .or => (0b0000000, 0b110, 0b01100)
  | .and => (0b0000000, 0b111, 0b01100)
  | .addw => (0b0000000, 0b000, 0b01110)
  | .subw => (0b0100000, 0b000, 0b01110)
  | .sllw => (0b0000000, 0b001, 0b01110)
  | .srlw => (0b0000000, 0b101, 0b01110)
  | .sraw => (0b0100000, 0b101, 0b01110)
  | .mul => (0b0000001, 0b000, 0b01100)
  | .mulh => (0b0000001, 0b001, 0b01100)
  | .mulhsu => (0b0000001, 0b010, 0b01100)
  | .mulhu => (0b0000001, 0b011, 0b01100)
  | .div => (0b0000001, 0b100, 0b01100)
  | .divu => (0b0000001, 0b101, 0b01100)
  | .rem => (0b0000001, 0b110, 0b01100)
  | .remu => (0b0000001, 0b111, 0b01100)
  | .mulw => (0b0000001, 0b000, 0b01110)
  | .divw => (0b0000001, 0b100, 0b01110)
  | .divuw => (0b0000001, 0b101, 0b01110)
  | .remw => (0b0000001, 0b110, 0b01110)
  | .remuw => (0b0000001, 0b111, 0b01110)

/-- The mnemonic of a register-register operation. -/
def ROp.mnem : ROp → RiscMnem
  | .add => .add
  | .sub => .sub
  | .sll => .sll
  | .slt => .slt
  | .sltu => .sltu
  | .xor => .xor
  | .srl => .srl
  | .sra => .sra
  | .or => .or
  | .and => .and
  | .addw => .addw
  | .subw => .subw
  | .sllw => .sllw
  | .srlw => .srlw
  | .sraw => .sraw
  | .mul => .mul
  | .mulh => .mulh
  | .mulhsu => .mulhsu
  | .mulhu => .mulhu
  | .div => .div
  | .divu => .divu
  | .rem => .rem
  | .remu => .remu
  | .mulw => .mulw
  | .divw => .divw
  | .divuw => .divuw
  | .remw => .remw
  | .remuw => .remuw

/-- Operations of the I format: immediates, loads and `JALR`. -/
inductive IOp where
  | addi | slti | sltiu | xori | ori | andi | addiw
  | lb | lh | lw | ld | lbu | lhu | lwu | jalr
  deriving DecidableEq, Repr

/-- `funct3` and the opcode of an operation of the I format. -/
def IOp.code : IOp → BitVec 3 × BitVec 5
  | .addi => (0b000, 0b00100)
  | .slti => (0b010, 0b00100)
  | .sltiu => (0b011, 0b00100)
  | .xori => (0b100, 0b00100)
  | .ori => (0b110, 0b00100)
  | .andi => (0b111, 0b00100)
  | .addiw => (0b000, 0b00110)
  | .lb => (0b000, 0b00000)
  | .lh => (0b001, 0b00000)
  | .lw => (0b010, 0b00000)
  | .ld => (0b011, 0b00000)
  | .lbu => (0b100, 0b00000)
  | .lhu => (0b101, 0b00000)
  | .lwu => (0b110, 0b00000)
  | .jalr => (0b000, 0b11001)

/-- The mnemonic of an operation of the I format. -/
def IOp.mnem : IOp → RiscMnem
  | .addi => .addi
  | .slti => .slti
  | .sltiu => .sltiu
  | .xori => .xori
  | .ori => .ori
  | .andi => .andi
  | .addiw => .addiw
  | .lb => .lb
  | .lh => .lh
  | .lw => .lw
  | .ld => .ld
  | .lbu => .lbu
  | .lhu => .lhu
  | .lwu => .lwu
  | .jalr => .jalr

/-- Shifts by an immediate. -/
inductive ShiftOp where
  | sll | srl | sra
  deriving DecidableEq, Repr

/-- The function code above the shift amount and `funct3`. -/
def ShiftOp.code : ShiftOp → BitVec 6 × BitVec 3
  | .sll => (0b000000, 0b001)
  | .srl => (0b000000, 0b101)
  | .sra => (0b010000, 0b101)

/-- The mnemonic of a shift of all 64 bits. -/
def ShiftOp.mnem : ShiftOp → RiscMnem
  | .sll => .slli
  | .srl => .srli
  | .sra => .srai

/-- The mnemonic of a shift of the low 32 bits. -/
def ShiftOp.mnemW : ShiftOp → RiscMnem
  | .sll => .slliw
  | .srl => .srliw
  | .sra => .sraiw

/-- Stores. -/
inductive StoreOp where
  | sb | sh | sw | sd
  deriving DecidableEq, Repr

/-- `funct3` of a store. -/
def StoreOp.code : StoreOp → BitVec 3
  | .sb => 0b000
  | .sh => 0b001
  | .sw => 0b010
  | .sd => 0b011

/-- The mnemonic of a store. -/
def StoreOp.mnem : StoreOp → RiscMnem
  | .sb => .sb
  | .sh => .sh
  | .sw => .sw
  | .sd => .sd

/-- Conditional branches. -/
inductive BranchOp where
  | beq | bne | blt | bge | bltu | bgeu
  deriving DecidableEq, Repr

/-- `funct3` of a branch. -/
def BranchOp.code : BranchOp → BitVec 3
  | .beq => 0b000
  | .bne => 0b001
  | .blt => 0b100
  | .bge => 0b101
  | .bltu => 0b110
  | .bgeu => 0b111

/-- The mnemonic of a branch. -/
def BranchOp.mnem : BranchOp → RiscMnem
  | .beq => .beq
  | .bne => .bne
  | .blt => .blt
  | .bge => .bge
  | .bltu => .bltu
  | .bgeu => .bgeu

/-- Accesses to a control and status register. With an `i` the `rs1` field is an
immediate. -/
inductive CsrOp where
  | rw | rs | rc | rwi | rsi | rci
  deriving DecidableEq, Repr

/-- `funct3` of a CSR access. -/
def CsrOp.code : CsrOp → BitVec 3
  | .rw => 0b001
  | .rs => 0b010
  | .rc => 0b011
  | .rwi => 0b101
  | .rsi => 0b110
  | .rci => 0b111

/-- The mnemonic of a CSR access. -/
def CsrOp.mnem : CsrOp → RiscMnem
  | .rw => .csrrw
  | .rs => .csrrs
  | .rc => .csrrc
  | .rwi => .csrrwi
  | .rsi => .csrrsi
  | .rci => .csrrci

/-- Atomic operations with two source registers. -/
inductive AmoOp where
  | sc | swap | add | xor | and | or | min | max | minu | maxu
  deriving DecidableEq, Repr

/-- `funct5` of an atomic operation. -/
def AmoOp.code : AmoOp → BitVec 5
  | .sc => 0b00011
  | .swap => 0b00001
  | .add => 0b00000
  | .xor => 0b00100
  | .and => 0b01100
  | .or => 0b01000
  | .min => 0b10000
  | .max => 0b10100
  | .minu => 0b11000
  | .maxu => 0b11100

/-- The mnemonic of an atomic operation. -/
def AmoOp.mnem : AmoOp → Width → RiscMnem
  | .sc, .w => .scw
  | .sc, .d => .scd
  | .swap, .w => .amoswapw
  | .swap, .d => .amoswapd
  | .add, .w => .amoaddw
  | .add, .d => .amoaddd
  | .xor, .w => .amoxorw
  | .xor, .d => .amoxord
  | .and, .w => .amoandw
  | .and, .d => .amoandd
  | .or, .w => .amoorw
  | .or, .d => .amoord
  | .min, .w => .amominw
  | .min, .d => .amomind
  | .max, .w => .amomaxw
  | .max, .d => .amomaxd
  | .minu, .w => .amominuw
  | .minu, .d => .amominud
  | .maxu, .w => .amomaxuw
  | .maxu, .d => .amomaxud

/-- Fused multiplications. -/
inductive FmaOp where
  | madd | msub | nmsub | nmadd
  deriving DecidableEq, Repr

/-- The opcode of a fused multiplication. -/
def FmaOp.code : FmaOp → BitVec 5
  | .madd => 0b10000
  | .msub => 0b10001
  | .nmsub => 0b10010
  | .nmadd => 0b10011

/-- The mnemonic of a fused multiplication. -/
def FmaOp.mnem : FmaOp → Width → RiscMnem
  | .madd, .w => .fmadds
  | .madd, .d => .fmaddd
  | .msub, .w => .fmsubs
  | .msub, .d => .fmsubd
  | .nmsub, .w => .fnmsubs
  | .nmsub, .d => .fnmsubd
  | .nmadd, .w => .fnmadds
  | .nmadd, .d => .fnmaddd

/-- Floating point operations with two sources and a rounding mode. -/
inductive FArithOp where
  | add | sub | mul | div
  deriving DecidableEq, Repr

/-- `funct5` of an arithmetic operation. -/
def FArithOp.code : FArithOp → BitVec 5
  | .add => 0b00000
  | .sub => 0b00001
  | .mul => 0b00010
  | .div => 0b00011

/-- The mnemonic of an arithmetic operation. -/
def FArithOp.mnem : FArithOp → Width → RiscMnem
  | .add, .w => .fadds
  | .add, .d => .faddd
  | .sub, .w => .fsubs
  | .sub, .d => .fsubd
  | .mul, .w => .fmuls
  | .mul, .d => .fmuld
  | .div, .w => .fdivs
  | .div, .d => .fdivd

/-- Floating point operations with two sources, told apart by `funct3`. -/
inductive FPairOp where
  | sgnj | sgnjn | sgnjx | min | max | eq | lt | le
  deriving DecidableEq, Repr

/-- `funct5` and `funct3`. -/
def FPairOp.code : FPairOp → BitVec 5 × BitVec 3
  | .sgnj => (0b00100, 0b000)
  | .sgnjn => (0b00100, 0b001)
  | .sgnjx => (0b00100, 0b010)
  | .min => (0b00101, 0b000)
  | .max => (0b00101, 0b001)
  | .eq => (0b10100, 0b010)
  | .lt => (0b10100, 0b001)
  | .le => (0b10100, 0b000)

/-- The mnemonic of such an operation. -/
def FPairOp.mnem : FPairOp → Width → RiscMnem
  | .sgnj, .w => .fsgnjs
  | .sgnj, .d => .fsgnjd
  | .sgnjn, .w => .fsgnjns
  | .sgnjn, .d => .fsgnjnd
  | .sgnjx, .w => .fsgnjxs
  | .sgnjx, .d => .fsgnjxd
  | .min, .w => .fmins
  | .min, .d => .fmind
  | .max, .w => .fmaxs
  | .max, .d => .fmaxd
  | .eq, .w => .feqs
  | .eq, .d => .feqd
  | .lt, .w => .flts
  | .lt, .d => .fltd
  | .le, .w => .fles
  | .le, .d => .fled

/-- Floating point operations with one source and a rounding mode; `rs2` is part of
the function code. -/
inductive FUnaryOp where
  | sqrt | toW | toWu | toL | toLu | ofW | ofWu | ofL | ofLu
  deriving DecidableEq, Repr

/-- `funct5` and the `rs2` field. -/
def FUnaryOp.code : FUnaryOp → BitVec 5 × BitVec 5
  | .sqrt => (0b01011, 0)
  | .toW => (0b11000, 0)
  | .toWu => (0b11000, 1)
  | .toL => (0b11000, 2)
  | .toLu => (0b11000, 3)
  | .ofW => (0b11010, 0)
  | .ofWu => (0b11010, 1)
  | .ofL => (0b11010, 2)
  | .ofLu => (0b11010, 3)

/-- The mnemonic of such an operation. -/
def FUnaryOp.mnem : FUnaryOp → Width → RiscMnem
  | .sqrt, .w => .fsqrts
  | .sqrt, .d => .fsqrtd
  | .toW, .w => .fcvtws
  | .toW, .d => .fcvtwd
  | .toWu, .w => .fcvtwus
  | .toWu, .d => .fcvtwud
  | .toL, .w => .fcvtls
  | .toL, .d => .fcvtld
  | .toLu, .w => .fcvtlus
  | .toLu, .d => .fcvtlud
  | .ofW, .w => .fcvtsw
  | .ofW, .d => .fcvtdw
  | .ofWu, .w => .fcvtswu
  | .ofWu, .d => .fcvtdwu
  | .ofL, .w => .fcvtsl
  | .ofL, .d => .fcvtdl
  | .ofLu, .w => .fcvtslu
  | .ofLu, .d => .fcvtdlu

/-- Moves between the register files and classification. -/
inductive FMoveOp where
  | mvToX | class' | mvToF
  deriving DecidableEq, Repr

/-- `funct5` and `funct3`. -/
def FMoveOp.code : FMoveOp → BitVec 5 × BitVec 3
  | .mvToX => (0b11100, 0b000)
  | .class' => (0b11100, 0b001)
  | .mvToF => (0b11110, 0b000)

/-- The mnemonic of a move. -/
def FMoveOp.mnem : FMoveOp → Width → RiscMnem
  | .mvToX, .w => .fmvxw
  | .mvToX, .d => .fmvxd
  | .class', .w => .fclasss
  | .class', .d => .fclassd
  | .mvToF, .w => .fmvwx
  | .mvToF, .d => .fmvdx

/-- The two-bit format field of a floating point operation. -/
def Width.fmt : Width → BitVec 2
  | .w => 0b00
  | .d => 0b01

/-- A choice by width. -/
def Width.pick {α : Type} : Width → α → α → α
  | .w, single, _ => single
  | .d, _, double => double

/-- `funct3` of a load, store or atomic of this width. -/
def Width.funct3 : Width → BitVec 3
  | .w => 0b010
  | .d => 0b011

/-- An instruction of RV64IMAFD with Zicsr and all its operand fields. Branch and
jump immediates hold the offset without its lowest bit. -/
inductive Insn where
  | reg (op : ROp) (rd rs1 rs2 : BitVec 5)
  | regImm (op : IOp) (rd rs1 : BitVec 5) (imm : BitVec 12)
  | shift (op : ShiftOp) (rd rs1 : BitVec 5) (shamt : BitVec 6)
  | shiftW (op : ShiftOp) (rd rs1 : BitVec 5) (shamt : BitVec 5)
  | store (op : StoreOp) (rs1 rs2 : BitVec 5) (imm : BitVec 12)
  | branch (op : BranchOp) (rs1 rs2 : BitVec 5) (imm : BitVec 12)
  | lui (rd : BitVec 5) (imm : BitVec 20)
  | auipc (rd : BitVec 5) (imm : BitVec 20)
  | jal (rd : BitVec 5) (imm : BitVec 20)
  | fence (rd rs1 : BitVec 5) (imm : BitVec 12)
  | fenceI (rd rs1 : BitVec 5) (imm : BitVec 12)
  | ecall
  | ebreak
  | csrAccess (op : CsrOp) (rd rs1 : BitVec 5) (csr : BitVec 12)
  | lr (width : Width) (aq rl : BitVec 1) (rd rs1 : BitVec 5)
  | amo (op : AmoOp) (width : Width) (aq rl : BitVec 1) (rd rs1 rs2 : BitVec 5)
  | loadFp (width : Width) (rd rs1 : BitVec 5) (imm : BitVec 12)
  | storeFp (width : Width) (rs1 rs2 : BitVec 5) (imm : BitVec 12)
  | fma (op : FmaOp) (width : Width) (rd rs1 rs2 rs3 : BitVec 5) (rm : BitVec 3)
  | fArith (op : FArithOp) (width : Width) (rd rs1 rs2 : BitVec 5) (rm : BitVec 3)
  | fPair (op : FPairOp) (width : Width) (rd rs1 rs2 : BitVec 5)
  | fUnary (op : FUnaryOp) (width : Width) (rd rs1 : BitVec 5) (rm : BitVec 3)
  | fMove (op : FMoveOp) (width : Width) (rd rs1 : BitVec 5)
  | fcvtsd (rd rs1 : BitVec 5) (rm : BitVec 3)
  | fcvtds (rd rs1 : BitVec 5) (rm : BitVec 3)
  deriving DecidableEq, Repr

namespace Insn

/-- `funct7` of a floating point operation: `funct5` over the format. -/
def fpFunct7 (funct5 : BitVec 5) (width : Width) : BitVec 7 :=
  place 7 funct5 2 ||| place 7 width.fmt 0

/-- `funct7` of an atomic operation: `funct5` over the ordering bits. -/
def amoFunct7 (funct5 : BitVec 5) (aq rl : BitVec 1) : BitVec 7 :=
  place 7 funct5 2 ||| place 7 aq 1 ||| place 7 rl 0

/-- The 32-bit word of an instruction. -/
def encode : Insn → BitVec 32
  | .reg op rd rs1 rs2 => word op.code.1 rs2 rs1 op.code.2.1 rd op.code.2.2
  | .regImm op rd rs1 imm => wordI imm rs1 op.code.1 rd op.code.2
  | .shift op rd rs1 shamt => wordShift op.code.1 shamt rs1 op.code.2 rd 0b00100
  | .shiftW op rd rs1 shamt => word (place 7 op.code.1 1) shamt rs1 op.code.2 rd 0b00110
  | .store op rs1 rs2 imm => wordS imm rs2 rs1 op.code 0b01000
  | .branch op rs1 rs2 imm => wordB imm rs2 rs1 op.code 0b11000
  | .lui rd imm => wordU imm rd 0b01101
  | .auipc rd imm => wordU imm rd 0b00101
  | .jal rd imm => wordJ imm rd 0b11011
  | .fence rd rs1 imm => wordI imm rs1 0b000 rd 0b00011
  | .fenceI rd rs1 imm => wordI imm rs1 0b001 rd 0b00011
  | .ecall => wordI 0 0 0b000 0 0b11100
  | .ebreak => wordI 1 0 0b000 0 0b11100
  | .csrAccess op rd rs1 csr => wordI csr rs1 op.code rd 0b11100
  | .lr width aq rl rd rs1 => word (amoFunct7 0b00010 aq rl) 0 rs1 width.funct3 rd 0b01011
  | .amo op width aq rl rd rs1 rs2 =>
      word (amoFunct7 op.code aq rl) rs2 rs1 width.funct3 rd 0b01011
  | .loadFp width rd rs1 imm => wordI imm rs1 width.funct3 rd 0b00001
  | .storeFp width rs1 rs2 imm => wordS imm rs2 rs1 width.funct3 0b01001
  | .fma op width rd rs1 rs2 rs3 rm => word (fpFunct7 rs3 width) rs2 rs1 rm rd op.code
  | .fArith op width rd rs1 rs2 rm => word (fpFunct7 op.code width) rs2 rs1 rm rd 0b10100
  | .fPair op width rd rs1 rs2 =>
      word (fpFunct7 op.code.1 width) rs2 rs1 op.code.2 rd 0b10100
  | .fUnary op width rd rs1 rm => word (fpFunct7 op.code.1 width) op.code.2 rs1 rm rd 0b10100
  | .fMove op width rd rs1 => word (fpFunct7 op.code.1 width) 0 rs1 op.code.2 rd 0b10100
  | .fcvtsd rd rs1 rm => word (fpFunct7 0b01000 .w) 1 rs1 rm rd 0b10100
  | .fcvtds rd rs1 rm => word (fpFunct7 0b01000 .d) 0 rs1 rm rd 0b10100

end Insn

/-- The rounding mode the struct holds for a rounding mode of the word. -/
def readRm (rm : BitVec 3) : BitVec 32 := if rm = 4#3 then rne else rm.setWidth 32

/-- The struct `r` holds the instruction: its mnemonic, the operands it has, and
`INVALID_REG` in the slots that the base instructions leave unused. -/
abbrev Decoded (r : RiscInstr) : Insn → Prop
  | .reg op rd rs1 rs2 =>
      r.mnem = op.mnem ∧ r.regDest = rd.toNat ∧ r.regSrc1 = rs1.toNat ∧ r.regSrc2 = rs2.toNat
  | .regImm op rd rs1 imm =>
      r.mnem = op.mnem ∧ r.regDest = rd.toNat ∧ r.regSrc1 = rs1.toNat ∧
        r.regSrc2 = invalidReg ∧ r.imm = imm.signExtend 64
  | .shift op rd rs1 shamt =>
      r.mnem = op.mnem ∧ r.regDest = rd.toNat ∧ r.regSrc1 = rs1.toNat ∧
        r.regSrc2 = invalidReg ∧ r.imm = shamt.setWidth 64
  | .shiftW op rd rs1 shamt =>
      r.mnem = op.mnemW ∧ r.regDest = rd.toNat ∧ r.regSrc1 = rs1.toNat ∧
        r.regSrc2 = invalidReg ∧ r.imm = shamt.setWidth 64
  | .store op rs1 rs2 imm =>
      r.mnem = op.mnem ∧ r.regDest = invalidReg ∧ r.regSrc1 = rs1.toNat ∧
        r.regSrc2 = rs2.toNat ∧ r.imm = imm.signExtend 64
  | .branch op rs1 rs2 imm =>
      r.mnem = op.mnem ∧ r.regDest = invalidReg ∧ r.regSrc1 = rs1.toNat ∧
        r.regSrc2 = rs2.toNat ∧ r.imm = (place 13 imm 1).signExtend 64
  | .lui rd imm =>
      r.mnem = .lui ∧ r.regDest = rd.toNat ∧ r.regSrc1 = invalidReg ∧
        r.regSrc2 = invalidReg ∧ r.imm = (place 32 imm 12).signExtend 64
  | .auipc rd imm =>
      r.mnem = .auipc ∧ r.regDest = rd.toNat ∧ r.regSrc1 = invalidReg ∧
        r.regSrc2 = invalidReg ∧ r.imm = (place 32 imm 12).signExtend 64
  | .jal rd imm =>
      r.mnem = .jal ∧ r.regDest = rd.toNat ∧ r.regSrc1 = invalidReg ∧
        r.regSrc2 = invalidReg ∧ r.imm = (place 21 imm 1).signExtend 64
  | .fence rd rs1 imm =>
      r.mnem = .fence ∧ r.regDest = rd.toNat ∧ r.regSrc1 = rs1.toNat ∧
        r.regSrc2 = invalidReg ∧ r.imm = imm.signExtend 64
  | .fenceI rd rs1 imm =>
      r.mnem = .fenceI ∧ r.regDest = rd.toNat ∧ r.regSrc1 = rs1.toNat ∧
        r.regSrc2 = invalidReg ∧ r.imm = imm.signExtend 64
  | .ecall => r.mnem = .ecall ∧ r.regSrc2 = invalidReg
  | .ebreak => r.mnem = .ebreak ∧ r.regSrc2 = invalidReg
  | .csrAccess op rd rs1 csr =>
      r.mnem = op.mnem ∧ r.regDest = rd.toNat ∧ r.regSrc1 = rs1.toNat ∧
        r.regSrc2 = invalidReg ∧ r.imm.setWidth 12 = csr
  | .lr width aq rl rd rs1 =>
      r.mnem = width.pick .lrw .lrd ∧ r.regDest = rd.toNat ∧ r.regSrc1 = rs1.toNat ∧
        r.imm = (Insn.amoFunct7 0b00010 aq rl).setWidth 64
  | .amo op width aq rl rd rs1 rs2 =>
      r.mnem = op.mnem width ∧ r.regDest = rd.toNat ∧ r.regSrc1 = rs1.toNat ∧
        r.regSrc2 = rs2.toNat ∧ r.imm = (Insn.amoFunct7 op.code aq rl).setWidth 64
  | .loadFp width rd rs1 imm =>
      r.mnem = width.pick .flw .fld ∧ r.regDest = rd.toNat ∧ r.regSrc1 = rs1.toNat ∧
        r.imm = imm.signExtend 64
  | .storeFp width rs1 rs2 imm =>
      r.mnem = width.pick .fsw .fsd ∧ r.regSrc1 = rs1.toNat ∧ r.regSrc2 = rs2.toNat ∧
        r.imm = imm.signExtend 64
  | .fma op width rd rs1 rs2 rs3 rm =>
      r.mnem = op.mnem width ∧ r.regDest = rd.toNat ∧ r.regSrc1 = rs1.toNat ∧
        r.regSrc2 = rs2.toNat ∧ r.regSrc3 = rs3.setWidth 32 ∧ r.roundingMode = readRm rm
  | .fArith op width rd rs1 rs2 rm =>
      r.mnem = op.mnem width ∧ r.regDest = rd.toNat ∧ r.regSrc1 = rs1.toNat ∧
        r.regSrc2 = rs2.toNat ∧ r.roundingMode = readRm rm
  | .fPair op width rd rs1 rs2 =>
      r.mnem = op.mnem width ∧ r.regDest = rd.toNat ∧ r.regSrc1 = rs1.toNat ∧
        r.regSrc2 = rs2.toNat
  | .fUnary op width rd rs1 rm =>
      r.mnem = op.mnem width ∧ r.regDest = rd.toNat ∧ r.regSrc1 = rs1.toNat ∧
        r.roundingMode = readRm rm
  | .fMove op width rd rs1 =>
      r.mnem = op.mnem width ∧ r.regDest = rd.toNat ∧ r.regSrc1 = rs1.toNat
  | .fcvtsd rd rs1 rm =>
      r.mnem = .fcvtsd ∧ r.regDest = rd.toNat ∧ r.regSrc1 = rs1.toNat ∧
        r.roundingMode = readRm rm
  | .fcvtds rd rs1 rm =>
      r.mnem = .fcvtds ∧ r.regDest = rd.toNat ∧ r.regSrc1 = rs1.toNat ∧
        r.roundingMode = readRm rm

/-! ## The fields of a word -/

section

variable (funct7 : BitVec 7) (rs2 rs1 : BitVec 5) (funct3 : BitVec 3) (rd opcode : BitVec 5)

/-- Every bit of a word belongs to one of its fields. -/
theorem getLsbD_word {i : Nat} (hi : i < 32) :
    (word funct7 rs2 rs1 funct3 rd opcode).getLsbD i =
      if i < 2 then true
      else if i < 7 then opcode.getLsbD (i - 2)
      else if i < 12 then rd.getLsbD (i - 7)
      else if i < 15 then funct3.getLsbD (i - 12)
      else if i < 20 then rs1.getLsbD (i - 15)
      else if i < 25 then rs2.getLsbD (i - 20)
      else funct7.getLsbD (i - 25) := by
  simp only [word, place, BitVec.getLsbD_or, BitVec.getLsbD_shiftLeft, BitVec.getLsbD_setWidth]
  interval_cases i <;> simp [-BitVec.getLsbD_eq_getElem]

/-- A shifted and masked word is one of its fields. -/
theorem sshiftRight_and_mask (x : BitVec 32) {pos len : Nat} (h : pos + len ≤ 32) :
    x.sshiftRight pos &&& (BitVec.allOnes len).setWidth 32 =
      (x.extractLsb' pos len).setWidth 32 := by
  apply BitVec.eq_of_getLsbD_eq
  intro i hi
  simp only [BitVec.getLsbD_and, BitVec.getLsbD_sshiftRight, BitVec.getLsbD_setWidth,
    BitVec.getLsbD_allOnes, BitVec.getLsbD_extractLsb', hi, decide_true, Bool.true_and]
  by_cases hlen : i < len
  · simp [hlen, show pos + i < 32 by omega, show ¬ 32 ≤ i by omega]
  · simp [hlen]

/-- The destination is read back. -/
theorem extractRd_word :
    extractRd (word funct7 rs2 rs1 funct3 rd opcode) = rd.setWidth 32 := by
  refine (sshiftRight_and_mask _ (by decide : 7 + 5 ≤ 32)).trans (congrArg _ ?_)
  apply BitVec.eq_of_getLsbD_eq
  intro i hi
  rw [BitVec.getLsbD_extractLsb', getLsbD_word _ _ _ _ _ _ (by omega)]
  simp (disch := omega) only [if_neg, if_pos, hi, decide_true, Bool.true_and,
    Nat.add_sub_cancel_left]

theorem toNat_extractRd_word :
    (extractRd (word funct7 rs2 rs1 funct3 rd opcode)).toNat = rd.toNat := by
  rw [extractRd_word, BitVec.toNat_setWidth_of_le (by decide)]

/-- The first source is read back. -/
theorem extractRs1_word :
    extractRs1 (word funct7 rs2 rs1 funct3 rd opcode) = rs1.setWidth 32 := by
  refine (sshiftRight_and_mask _ (by decide : 15 + 5 ≤ 32)).trans (congrArg _ ?_)
  apply BitVec.eq_of_getLsbD_eq
  intro i hi
  rw [BitVec.getLsbD_extractLsb', getLsbD_word _ _ _ _ _ _ (by omega)]
  simp (disch := omega) only [if_neg, if_pos, hi, decide_true, Bool.true_and,
    Nat.add_sub_cancel_left]

theorem toNat_extractRs1_word :
    (extractRs1 (word funct7 rs2 rs1 funct3 rd opcode)).toNat = rs1.toNat := by
  rw [extractRs1_word, BitVec.toNat_setWidth_of_le (by decide)]

/-- The second source is read back. -/
theorem extractRs2_word :
    extractRs2 (word funct7 rs2 rs1 funct3 rd opcode) = rs2.setWidth 32 := by
  refine (sshiftRight_and_mask _ (by decide : 20 + 5 ≤ 32)).trans (congrArg _ ?_)
  apply BitVec.eq_of_getLsbD_eq
  intro i hi
  rw [BitVec.getLsbD_extractLsb', getLsbD_word _ _ _ _ _ _ (by omega)]
  simp (disch := omega) only [if_neg, if_pos, hi, decide_true, Bool.true_and,
    Nat.add_sub_cancel_left]

theorem toNat_extractRs2_word :
    (extractRs2 (word funct7 rs2 rs1 funct3 rd opcode)).toNat = rs2.toNat := by
  rw [extractRs2_word, BitVec.toNat_setWidth_of_le (by decide)]

/-- The function field of three bits is read back. -/
theorem extractFunct3_word :
    extractFunct3 (word funct7 rs2 rs1 funct3 rd opcode) = funct3.setWidth 32 := by
  refine (sshiftRight_and_mask _ (by decide : 12 + 3 ≤ 32)).trans (congrArg _ ?_)
  apply BitVec.eq_of_getLsbD_eq
  intro i hi
  rw [BitVec.getLsbD_extractLsb', getLsbD_word _ _ _ _ _ _ (by omega)]
  simp (disch := omega) only [if_neg, if_pos, hi, decide_true, Bool.true_and,
    Nat.add_sub_cancel_left]

theorem toNat_extractFunct3_word :
    (extractFunct3 (word funct7 rs2 rs1 funct3 rd opcode)).toNat = funct3.toNat := by
  rw [extractFunct3_word, BitVec.toNat_setWidth_of_le (by decide)]

/-- The function field of seven bits is read back. -/
theorem extractFunct7_word :
    extractFunct7 (word funct7 rs2 rs1 funct3 rd opcode) = funct7.setWidth 32 := by
  refine (sshiftRight_and_mask _ (by decide : 25 + 7 ≤ 32)).trans (congrArg _ ?_)
  apply BitVec.eq_of_getLsbD_eq
  intro i hi
  rw [BitVec.getLsbD_extractLsb', getLsbD_word _ _ _ _ _ _ (by omega)]
  simp (disch := omega) only [if_neg, hi, decide_true, Bool.true_and,
    Nat.add_sub_cancel_left]

/-- The opcode is read back, without the two bits that all words share. -/
theorem extractOpcode_word :
    extractOpcode (word funct7 rs2 rs1 funct3 rd opcode) = opcode.setWidth 32 := by
  refine (sshiftRight_and_mask _ (by decide : 2 + 5 ≤ 32)).trans (congrArg _ ?_)
  apply BitVec.eq_of_getLsbD_eq
  intro i hi
  rw [BitVec.getLsbD_extractLsb', getLsbD_word _ _ _ _ _ _ (by omega)]
  simp (disch := omega) only [if_neg, if_pos, hi, decide_true, Bool.true_and,
    Nat.add_sub_cancel_left]

theorem toNat_extractOpcode_word :
    (extractOpcode (word funct7 rs2 rs1 funct3 rd opcode)).toNat = opcode.toNat := by
  rw [extractOpcode_word, BitVec.toNat_setWidth_of_le (by decide)]

/-- The third source lies in the upper bits of `funct7`. -/
theorem extractRs3_word :
    extractRs3 (word funct7 rs2 rs1 funct3 rd opcode) =
      (funct7.extractLsb' 2 5).setWidth 32 := by
  refine (sshiftRight_and_mask _ (by decide : 27 + 5 ≤ 32)).trans (congrArg _ ?_)
  apply BitVec.eq_of_getLsbD_eq
  intro i hi
  rw [BitVec.getLsbD_extractLsb', getLsbD_word _ _ _ _ _ _ (by omega),
    BitVec.getLsbD_extractLsb']
  simp (disch := omega) only [if_neg, hi, decide_true, Bool.true_and]
  congr 1
  omega

/-- The operand size lies in the lower bits of `funct7`. -/
theorem extractFunct2_word :
    extractFunct2 (word funct7 rs2 rs1 funct3 rd opcode) =
      (funct7.extractLsb' 0 2).setWidth 32 := by
  refine (sshiftRight_and_mask _ (by decide : 25 + 2 ≤ 32)).trans (congrArg _ ?_)
  apply BitVec.eq_of_getLsbD_eq
  intro i hi
  rw [BitVec.getLsbD_extractLsb', getLsbD_word _ _ _ _ _ _ (by omega),
    BitVec.getLsbD_extractLsb']
  simp (disch := omega) only [if_neg, hi, decide_true, Bool.true_and]
  congr 1
  omega

theorem toNat_extractFunct2_word :
    (extractFunct2 (word funct7 rs2 rs1 funct3 rd opcode)).toNat =
      (funct7.extractLsb' 0 2).toNat := by
  rw [extractFunct2_word, BitVec.toNat_setWidth_of_le (by decide)]

/-- A shift amount of six bits is read back. -/
theorem extractBigShamt_wordShift (funct6 shamt : BitVec 6) :
    extractBigShamt (wordShift funct6 shamt rs1 funct3 rd opcode) = shamt.setWidth 32 := by
  refine (sshiftRight_and_mask _ (by decide : 20 + 6 ≤ 32)).trans (congrArg _ ?_)
  apply BitVec.eq_of_getLsbD_eq
  intro i hi
  rw [BitVec.getLsbD_extractLsb', getLsbD_word _ _ _ _ _ _ (by omega)]
  interval_cases i <;> simp [place, -BitVec.getLsbD_eq_getElem]

/-- A shift amount of five bits lies where the second source does. -/
theorem extractSmallShamt_word :
    extractSmallShamt (word funct7 rs2 rs1 funct3 rd opcode) = rs2.setWidth 32 :=
  extractRs2_word funct7 rs2 rs1 funct3 rd opcode

theorem getLsbD_word_25 :
    (word funct7 rs2 rs1 funct3 rd opcode).getLsbD 25 = funct7.getLsbD 0 :=
  getLsbD_word _ _ _ _ _ _ (by decide)

theorem getLsbD_word_30 :
    (word funct7 rs2 rs1 funct3 rd opcode).getLsbD 30 = funct7.getLsbD 5 :=
  getLsbD_word _ _ _ _ _ _ (by decide)

/-- An immediate of format I is read back with its sign. -/
theorem extractImmI_wordI (imm : BitVec 12) :
    extractImmI (wordI imm rs1 funct3 rd opcode) = imm.signExtend 32 := by
  apply BitVec.eq_of_getLsbD_eq
  intro i hi
  simp only [extractImmI, BitVec.getLsbD_sshiftRight, BitVec.msb_eq_getLsbD_last,
    BitVec.getLsbD_signExtend]
  interval_cases i <;> simp [getLsbD_word, -BitVec.getLsbD_eq_getElem]

/-- An immediate of format S is put together from its two parts. -/
theorem extractImmS_wordS (imm : BitVec 12) :
    extractImmS (wordS imm rs2 rs1 funct3 opcode) = imm.signExtend 32 := by
  apply BitVec.eq_of_getLsbD_eq
  intro i hi
  simp only [extractImmS, BitVec.getLsbD_or, BitVec.getLsbD_and, BitVec.getLsbD_sshiftRight,
    BitVec.msb_eq_getLsbD_last, BitVec.getLsbD_signExtend]
  interval_cases i <;> simp [getLsbD_word, -BitVec.getLsbD_eq_getElem]

/-- The offset of a branch is put together from its four parts and is even. -/
theorem extractImmB_wordB (imm : BitVec 12) :
    extractImmB (wordB imm rs2 rs1 funct3 opcode) = (place 13 imm 1).signExtend 32 := by
  apply BitVec.eq_of_getLsbD_eq
  intro i hi
  simp only [extractImmB, BitVec.getLsbD_or, BitVec.getLsbD_and, BitVec.getLsbD_sshiftRight,
    BitVec.getLsbD_shiftLeft, BitVec.msb_eq_getLsbD_last, BitVec.getLsbD_signExtend]
  interval_cases i <;> simp [getLsbD_word, place, -BitVec.getLsbD_eq_getElem]

/-- An upper immediate is read back in its place. -/
theorem extractImmU_wordU (imm : BitVec 20) :
    extractImmU (wordU imm rd opcode) = place 32 imm 12 := by
  apply BitVec.eq_of_getLsbD_eq
  intro i hi
  simp only [extractImmU, BitVec.getLsbD_and]
  interval_cases i <;> simp [getLsbD_word, place, -BitVec.getLsbD_eq_getElem]

/-- The offset of a jump is put together from its four parts and is even. -/
theorem extractImmJ_wordJ (imm : BitVec 20) :
    extractImmJ (wordJ imm rd opcode) = (place 21 imm 1).signExtend 32 := by
  apply BitVec.eq_of_getLsbD_eq
  intro i hi
  simp only [extractImmJ, BitVec.getLsbD_or, BitVec.getLsbD_and, BitVec.getLsbD_sshiftRight,
    BitVec.msb_eq_getLsbD_last, BitVec.getLsbD_signExtend]
  interval_cases i <;> simp [getLsbD_word, place, -BitVec.getLsbD_eq_getElem]

end

/-! ## Decoding -/

/-- Extending by the sign twice extends once. -/
theorem signExtend_signExtend {n : Nat} (h : n ≤ 32) (x : BitVec n) :
    (x.signExtend 32).signExtend 64 = x.signExtend 64 := by
  apply BitVec.eq_of_toInt_eq
  rw [BitVec.toInt_signExtend_of_le (by decide), BitVec.toInt_signExtend_of_le h,
    BitVec.toInt_signExtend_of_le (by omega)]

/-- A number below the sign bit is extended by zeros. -/
theorem signExtend_setWidth {n : Nat} (h : n < 32) (x : BitVec n) :
    (x.setWidth 32).signExtend 64 = x.setWidth 64 := by
  have hmsb : (x.setWidth 32).msb = false := by
    rw [BitVec.msb_setWidth, BitVec.getLsbD_of_ge x 31 (by omega)]
    rfl
  rw [BitVec.signExtend_eq_setWidth_of_msb_false hmsb, BitVec.setWidth_setWidth (by omega)]

/-! The opcode and the function codes of each operation select its mnemonic. -/

/-- The opcode and the function fields select the operation on registers. -/
theorem ROp.select (op : ROp) :
    (op.code.2.2.toNat = opOp ∧
      (if op.code.1.getLsbD 0 then opMnemMul op.code.2.1.toNat
        else opMnem (op.code.1.getLsbD 5) op.code.2.1.toNat) = some op.mnem) ∨
    (op.code.2.2.toNat = opOp32 ∧
      (if op.code.1.getLsbD 0 then op32MnemMul op.code.2.1.toNat
        else op32Mnem (op.code.1.getLsbD 5) op.code.2.1.toNat) = some op.mnem) := by
  cases op <;> decide

theorem StoreOp.select (op : StoreOp) : storeMnem op.code.toNat = some op.mnem := by
  cases op <;> rfl

theorem BranchOp.select (op : BranchOp) : branchMnem op.code.toNat = some op.mnem := by
  cases op <;> rfl

theorem CsrOp.select (op : CsrOp) (bit20 : Bool) :
    systemMnem bit20 op.code.toNat = some op.mnem := by
  cases op <;> rfl

/-- The function field selects an atomic operation, and the width its variant. -/
theorem AmoOp.select (op : AmoOp) (width : Width) :
    ∃ mnem, amoMnem op.code.toNat = some mnem ∧
      op.mnem width = width.pick mnem (offsetMnem mnem .lrd .lrw) := by
  cases op <;> cases width <;> exact ⟨_, rfl, rfl⟩

/-- The function field selects an arithmetic operation, and the operand size its variant. -/
theorem FArithOp.select (op : FArithOp) (width : Width) (funct3 rs2 : Nat) :
    ∃ mnem, fpMnem op.code.toNat funct3 rs2 = some mnem ∧
      op.mnem width = width.pick mnem (offsetMnem mnem .fld .flw) := by
  cases op <;> cases width <;> exact ⟨_, rfl, rfl⟩

theorem FPairOp.select (op : FPairOp) (width : Width) (rs2 : Nat) :
    ∃ mnem, fpMnem op.code.1.toNat op.code.2.toNat rs2 = some mnem ∧
      op.mnem width = width.pick mnem (offsetMnem mnem .fld .flw) := by
  cases op <;> cases width <;> exact ⟨_, rfl, rfl⟩

theorem FUnaryOp.select (op : FUnaryOp) (width : Width) (funct3 : Nat) :
    ∃ mnem, fpMnem op.code.1.toNat funct3 op.code.2.toNat = some mnem ∧
      op.mnem width = width.pick mnem (offsetMnem mnem .fld .flw) := by
  cases op <;> cases width <;> exact ⟨_, rfl, rfl⟩

theorem FMoveOp.select (op : FMoveOp) (width : Width) (rs2 : Nat) :
    ∃ mnem, fpMnem op.code.1.toNat op.code.2.toNat rs2 = some mnem ∧
      op.mnem width = width.pick mnem (offsetMnem mnem .fld .flw) := by
  cases op <;> cases width <;> exact ⟨_, rfl, rfl⟩

/-- The opcode and `funct3` select the operation with an immediate. -/
theorem IOp.select (op : IOp) :
    (op.code.2.toNat = opOpImm ∧ ∀ raw, (extractFunct3 raw).toNat = op.code.1.toNat →
      opImmMnem raw = some (op.mnem, extractImmI raw)) ∨
    (op.code.2.toNat = opOpImm32 ∧ ∀ raw, (extractFunct3 raw).toNat = op.code.1.toNat →
      opImm32Mnem raw = some (op.mnem, extractImmI raw)) ∨
    (op.code.2.toNat = opLoad ∧ loadMnem op.code.1.toNat = some op.mnem) ∨
    (op.code.2.toNat = opJalr ∧ op.mnem = .jalr) := by
  cases op
  case addi | slti | sltiu | xori | ori | andi =>
    exact .inl ⟨rfl, fun raw h => by simp only [opImmMnem, h]; rfl⟩
  case addiw => exact .inr (.inl ⟨rfl, fun raw h => by simp only [opImm32Mnem, h]; rfl⟩)
  case jalr => exact .inr (.inr (.inr ⟨rfl, rfl⟩))
  all_goals exact .inr (.inr (.inl ⟨rfl, rfl⟩))

/-- The bit above the shift amount selects the kind of a shift. -/
theorem ShiftOp.select (op : ShiftOp) (rd rs1 : BitVec 5) (shamt : BitVec 6) :
    opImmMnem (wordShift op.code.1 shamt rs1 op.code.2 rd 0b00100) =
      some (op.mnem, shamt.setWidth 32) := by
  cases op <;>
    simp [opImmMnem, toNat_extractFunct3_word, extractBigShamt_wordShift, getLsbD_word_30, place,
      ShiftOp.code, ShiftOp.mnem, -BitVec.getLsbD_eq_getElem]

/-- The same for a shift in 32 bits. -/
theorem ShiftOp.selectW (op : ShiftOp) (rd rs1 shamt : BitVec 5) :
    opImm32Mnem (word (place 7 op.code.1 1) shamt rs1 op.code.2 rd 0b00110) =
      some (op.mnemW, shamt.setWidth 32) := by
  cases op <;>
    simp [opImm32Mnem, toNat_extractFunct3_word, extractSmallShamt_word, getLsbD_word_30, place,
      ShiftOp.code, ShiftOp.mnemW, -BitVec.getLsbD_eq_getElem]


/-- `parse_instruction` recovers `i` from its word, whatever the struct held before. -/
def Recovers (flags : Flags) (instr : RiscInstr) (i : Insn) : Prop :=
  ∃ r, parseOpcode flags i.encode (basicStruct i.encode instr) = .ok (0, r) ∧ Decoded r i ∧
    r.addr = instr.addr

section

variable (flags : Flags) (instr : RiscInstr)

/-- Operations on two registers are recovered. -/
theorem recovers_reg (op : ROp) (rd rs1 rs2 : BitVec 5) :
    Recovers flags instr (.reg op rd rs1 rs2) := by
  refine ⟨{ basicStruct (Insn.reg op rd rs1 rs2).encode instr with
      optype := .regReg, regSrc2 := rs2.toNat, mnem := op.mnem }, ?_,
    ⟨rfl, toNat_extractRd_word .., toNat_extractRs1_word .., rfl⟩, rfl⟩
  rcases op.select with ⟨hop, hmnem⟩ | ⟨hop, hmnem⟩
  · simp only [parseOpcode, Insn.encode, toNat_extractOpcode_word, hop, parseOp, getLsbD_word_25,
      getLsbD_word_30, toNat_extractFunct3_word, toNat_extractRs2_word, hmnem, setMnem]
  · simp only [parseOpcode, Insn.encode, toNat_extractOpcode_word, hop, parseOp32,
      getLsbD_word_25, getLsbD_word_30, toNat_extractFunct3_word, toNat_extractRs2_word]
    split at hmnem
    · simp only [*, setMnem, reduceIte]
    · simp only [*, setMnem, reduceIte, Bool.false_eq_true]

/-- Operations with an immediate, loads and `JALR` are recovered. -/
theorem recovers_regImm (op : IOp) (rd rs1 : BitVec 5) (imm : BitVec 12) :
    Recovers flags instr (.regImm op rd rs1 imm) := by
  have hdec (optype : RiscOptype) : Decoded
      { basicStruct (Insn.regImm op rd rs1 imm).encode instr with
        optype := optype, mnem := op.mnem, imm := (imm.signExtend 32).signExtend 64 }
      (.regImm op rd rs1 imm) :=
    ⟨rfl, toNat_extractRd_word .., toNat_extractRs1_word .., rfl,
      signExtend_signExtend (by decide) imm⟩
  have hf3 : (extractFunct3 (Insn.regImm op rd rs1 imm).encode).toNat = op.code.1.toNat :=
    toNat_extractFunct3_word ..
  have hop' : (extractOpcode (Insn.regImm op rd rs1 imm).encode).toNat = op.code.2.toNat :=
    toNat_extractOpcode_word ..
  have himm : extractImmI (Insn.regImm op rd rs1 imm).encode = imm.signExtend 32 :=
    extractImmI_wordI ..
  rcases op.select with ⟨hop, hmnem⟩ | ⟨hop, hmnem⟩ | ⟨hop, hmnem⟩ | ⟨hop, hmnem⟩
  · refine ⟨_, ?_, hdec .immediate, rfl⟩
    simp only [parseOpcode, hop', hop, parseOpImm, hmnem _ hf3, himm]
  · refine ⟨_, ?_, hdec .immediate, rfl⟩
    simp only [parseOpcode, hop', hop, parseOpImm, hmnem _ hf3, himm]
  · refine ⟨_, ?_, hdec .immediate, rfl⟩
    simp only [parseOpcode, hop', hop, parseLoad, hf3, hmnem, himm, setMnem]
  · refine ⟨_, ?_, hdec .jump, rfl⟩
    simp only [parseOpcode, hop', hop, hmnem, himm]

/-- Shifts by an immediate are recovered. -/
theorem recovers_shift (op : ShiftOp) (rd rs1 : BitVec 5) (shamt : BitVec 6) :
    Recovers flags instr (.shift op rd rs1 shamt) := by
  refine ⟨{ basicStruct (Insn.shift op rd rs1 shamt).encode instr with
      optype := .immediate, mnem := op.mnem, imm := (shamt.setWidth 32).signExtend 64 }, ?_,
    ⟨rfl, toNat_extractRd_word .., toNat_extractRs1_word .., rfl,
      signExtend_setWidth (by decide) shamt⟩, rfl⟩
  have hop : (0b00100 : BitVec 5).toNat = opOpImm := rfl
  simp only [parseOpcode, Insn.encode, toNat_extractOpcode_word, hop, parseOpImm, op.select]

theorem recovers_shiftW (op : ShiftOp) (rd rs1 shamt : BitVec 5) :
    Recovers flags instr (.shiftW op rd rs1 shamt) := by
  refine ⟨{ basicStruct (Insn.shiftW op rd rs1 shamt).encode instr with
      optype := .immediate, mnem := op.mnemW, imm := (shamt.setWidth 32).signExtend 64 }, ?_,
    ⟨rfl, toNat_extractRd_word .., toNat_extractRs1_word .., rfl,
      signExtend_setWidth (by decide) shamt⟩, rfl⟩
  have hop : (0b00110 : BitVec 5).toNat = opOpImm32 := rfl
  simp only [parseOpcode, Insn.encode, toNat_extractOpcode_word, hop, parseOpImm, op.selectW]

/-- Stores are recovered. -/
theorem recovers_store (op : StoreOp) (rs1 rs2 : BitVec 5) (imm : BitVec 12) :
    Recovers flags instr (.store op rs1 rs2 imm) := by
  refine ⟨{ basicStruct (Insn.store op rs1 rs2 imm).encode instr with
      optype := .store, mnem := op.mnem, imm := (imm.signExtend 32).signExtend 64
      regDest := invalidReg, regSrc2 := rs2.toNat }, ?_,
    ⟨rfl, rfl, toNat_extractRs1_word .., rfl, signExtend_signExtend (by decide) imm⟩, rfl⟩
  have hop : (0b01000 : BitVec 5).toNat = opStore := rfl
  simp only [parseOpcode, Insn.encode, toNat_extractOpcode_word, hop, parseStore,
    extractImmS_wordS, toNat_extractRs2_word, toNat_extractFunct3_word, op.select, setMnem]

/-- Branches are recovered, with the offset as an even number. -/
theorem recovers_branch (op : BranchOp) (rs1 rs2 : BitVec 5) (imm : BitVec 12) :
    Recovers flags instr (.branch op rs1 rs2 imm) := by
  refine ⟨{ basicStruct (Insn.branch op rs1 rs2 imm).encode instr with
      optype := .branch, mnem := op.mnem, imm := ((place 13 imm 1).signExtend 32).signExtend 64
      regDest := invalidReg, regSrc2 := rs2.toNat }, ?_,
    ⟨rfl, rfl, toNat_extractRs1_word .., rfl,
      signExtend_signExtend (by decide) (place 13 imm 1)⟩, rfl⟩
  have hop : (0b11000 : BitVec 5).toNat = opBranch := rfl
  simp only [parseOpcode, Insn.encode, toNat_extractOpcode_word, hop, parseBranch,
    extractImmB_wordB, toNat_extractRs2_word, toNat_extractFunct3_word, op.select, setMnem]

theorem recovers_lui (rd : BitVec 5) (imm : BitVec 20) :
    Recovers flags instr (.lui rd imm) := by
  refine ⟨{ basicStruct (Insn.lui rd imm).encode instr with
      optype := .upperImmediate, mnem := .lui, imm := (place 32 imm 12).signExtend 64
      regSrc1 := invalidReg }, ?_,
    ⟨rfl, toNat_extractRd_word .., rfl, rfl, rfl⟩, rfl⟩
  have hop : (0b01101 : BitVec 5).toNat = opLui := rfl
  simp only [parseOpcode, Insn.encode, toNat_extractOpcode_word, hop, extractImmU_wordU]

theorem recovers_auipc (rd : BitVec 5) (imm : BitVec 20) :
    Recovers flags instr (.auipc rd imm) := by
  refine ⟨{ basicStruct (Insn.auipc rd imm).encode instr with
      optype := .immediate, mnem := .auipc, imm := (place 32 imm 12).signExtend 64
      regSrc1 := invalidReg }, ?_,
    ⟨rfl, toNat_extractRd_word .., rfl, rfl, rfl⟩, rfl⟩
  have hop : (0b00101 : BitVec 5).toNat = opAuipc := rfl
  simp only [parseOpcode, Insn.encode, toNat_extractOpcode_word, hop, extractImmU_wordU]

/-- `JAL` is recovered, with the offset as an even number. -/
theorem recovers_jal (rd : BitVec 5) (imm : BitVec 20) :
    Recovers flags instr (.jal rd imm) := by
  refine ⟨{ basicStruct (Insn.jal rd imm).encode instr with
      optype := .jump, mnem := .jal, imm := ((place 21 imm 1).signExtend 32).signExtend 64
      regSrc1 := invalidReg }, ?_,
    ⟨rfl, toNat_extractRd_word .., rfl, rfl,
      signExtend_signExtend (by decide) (place 21 imm 1)⟩, rfl⟩
  have hop : (0b11011 : BitVec 5).toNat = opJal := rfl
  simp only [parseOpcode, Insn.encode, toNat_extractOpcode_word, hop, extractImmJ_wordJ]

theorem recovers_fence (rd rs1 : BitVec 5) (imm : BitVec 12) :
    Recovers flags instr (.fence rd rs1 imm) := by
  refine ⟨{ basicStruct (Insn.fence rd rs1 imm).encode instr with
      optype := .system, mnem := .fence, imm := (imm.signExtend 32).signExtend 64 }, ?_,
    ⟨rfl, toNat_extractRd_word .., toNat_extractRs1_word .., rfl,
      signExtend_signExtend (by decide) imm⟩, rfl⟩
  have hop : (0b00011 : BitVec 5).toNat = opMiscMem := rfl
  have hmnem : miscMemMnem (0b000 : BitVec 3).toNat = some .fence := rfl
  simp only [parseOpcode, Insn.encode, toNat_extractOpcode_word, hop, parseMiscMem,
    toNat_extractFunct3_word, extractImmI_wordI, hmnem, setMnem]

theorem recovers_fenceI (rd rs1 : BitVec 5) (imm : BitVec 12) :
    Recovers flags instr (.fenceI rd rs1 imm) := by
  refine ⟨{ basicStruct (Insn.fenceI rd rs1 imm).encode instr with
      optype := .system, mnem := .fenceI, imm := (imm.signExtend 32).signExtend 64 }, ?_,
    ⟨rfl, toNat_extractRd_word .., toNat_extractRs1_word .., rfl,
      signExtend_signExtend (by decide) imm⟩, rfl⟩
  have hop : (0b00011 : BitVec 5).toNat = opMiscMem := rfl
  have hmnem : miscMemMnem (0b001 : BitVec 3).toNat = some .fenceI := rfl
  simp only [parseOpcode, Insn.encode, toNat_extractOpcode_word, hop, parseMiscMem,
    toNat_extractFunct3_word, extractImmI_wordI, hmnem, setMnem]

theorem recovers_ecall : Recovers flags instr .ecall :=
  ⟨_, rfl, ⟨rfl, rfl⟩, rfl⟩

theorem recovers_ebreak : Recovers flags instr .ebreak :=
  ⟨_, rfl, ⟨rfl, rfl⟩, rfl⟩

/-- Accesses to control and status registers are recovered, with the number as immediate. -/
theorem recovers_csrAccess (op : CsrOp) (rd rs1 : BitVec 5) (csr : BitVec 12) :
    Recovers flags instr (.csrAccess op rd rs1 csr) := by
  have hcsr : ((csr.signExtend 32).signExtend 64).setWidth 12 = csr := by
    rw [signExtend_signExtend (by decide)]
    apply BitVec.eq_of_getLsbD_eq
    intro i hi
    rw [BitVec.getLsbD_setWidth, BitVec.getLsbD_signExtend]
    simp [hi, show i < 64 by omega]
  refine ⟨{ basicStruct (Insn.csrAccess op rd rs1 csr).encode instr with
      optype := .system, mnem := op.mnem, imm := (csr.signExtend 32).signExtend 64 }, ?_,
    ⟨rfl, toNat_extractRd_word .., toNat_extractRs1_word .., rfl, hcsr⟩, rfl⟩
  have hop : (0b11100 : BitVec 5).toNat = opSystem := rfl
  simp only [parseOpcode, Insn.encode, toNat_extractOpcode_word, hop, parseSystem,
    toNat_extractFunct3_word, extractImmI_wordI, op.select, setMnem]

/-- Loads of floating-point numbers are recovered. -/
theorem recovers_loadFp (width : Width) (rd rs1 : BitVec 5) (imm : BitVec 12) :
    Recovers flags instr (.loadFp width rd rs1 imm) := by
  have hmnem : widthMnem .flw .fld width.funct3.toNat =
      some (width.pick .flw .fld) := by
    cases width <;> rfl
  refine ⟨{ basicStruct (Insn.loadFp width rd rs1 imm).encode instr with
      optype := .float, mnem := width.pick .flw .fld
      imm := (imm.signExtend 32).signExtend 64 }, ?_,
    ⟨rfl, toNat_extractRd_word .., toNat_extractRs1_word ..,
      signExtend_signExtend (by decide) imm⟩, rfl⟩
  have hop : (0b00001 : BitVec 5).toNat = opLoadFp := rfl
  simp only [parseOpcode, Insn.encode, toNat_extractOpcode_word, hop, parseLoadFp,
    toNat_extractFunct3_word, extractImmI_wordI, hmnem, setMnemFp, Except.map]

/-- Stores of floating-point numbers are recovered. -/
theorem recovers_storeFp (width : Width) (rs1 rs2 : BitVec 5) (imm : BitVec 12) :
    Recovers flags instr (.storeFp width rs1 rs2 imm) := by
  have hmnem : widthMnem .fsw .fsd width.funct3.toNat =
      some (width.pick .fsw .fsd) := by
    cases width <;> rfl
  refine ⟨{ basicStruct (Insn.storeFp width rs1 rs2 imm).encode instr with
      optype := .float, mnem := width.pick .fsw .fsd
      imm := (imm.signExtend 32).signExtend 64, regSrc2 := rs2.toNat }, ?_,
    ⟨rfl, toNat_extractRs1_word .., rfl, signExtend_signExtend (by decide) imm⟩, rfl⟩
  have hop : (0b01001 : BitVec 5).toNat = opStoreFp := rfl
  simp only [parseOpcode, Insn.encode, toNat_extractOpcode_word, hop, parseStoreFp,
    toNat_extractFunct3_word, toNat_extractRs2_word, extractImmS_wordS, hmnem, setMnemFp,
    Except.map]

/-! ### Atomics

The function code is the upper part of `funct7`, which the struct keeps whole. -/

/-- The upper five bits of a `funct7` that was widened. -/
theorem toNat_sshiftRight_setWidth {w : Nat} (hw : 7 < w) (funct7 : BitVec 7) :
    ((funct7.setWidth w).sshiftRight 2).toNat = (funct7.extractLsb' 2 5).toNat := by
  have hmsb : (funct7.setWidth w).msb = false := by
    rw [BitVec.msb_setWidth, BitVec.getLsbD_of_ge funct7 (w - 1) (by omega), Bool.and_false]
  rw [BitVec.sshiftRight_eq_of_msb_false hmsb, BitVec.toNat_ushiftRight,
    BitVec.toNat_setWidth_of_le (by omega), BitVec.extractLsb'_toNat, Nat.shiftRight_eq_div_pow]
  have hlt := funct7.isLt
  omega

/-- The operation of an atomic is read back from above the ordering bits. -/
theorem extractLsb'_amoFunct7 (funct5 : BitVec 5) (aq rl : BitVec 1) :
    (Insn.amoFunct7 funct5 aq rl).extractLsb' 2 5 = funct5 := by
  apply BitVec.eq_of_getLsbD_eq
  intro i hi
  interval_cases i <;> simp [Insn.amoFunct7, place]

/-- Both atomic formats, for a function code that selects a mnemonic. -/
theorem parseAmo_word {funct5 : BitVec 5} {mnem : RiscMnem}
    (hmnem : amoMnem funct5.toNat = some mnem) (width : Width) (aq rl : BitVec 1)
    (rd rs1 rs2 : BitVec 5) :
    parseOpcode flags (word (Insn.amoFunct7 funct5 aq rl) rs2 rs1 width.funct3 rd 0b01011)
        instr =
      .ok (0, { instr with
        regSrc2 := rs2.toNat
        imm := ((Insn.amoFunct7 funct5 aq rl).setWidth 32).signExtend 64
        mnem := width.pick mnem (offsetMnem mnem .lrd .lrw) }) := by
  have hop : (0b01011 : BitVec 5).toNat = opAmo := rfl
  have hsel : amoMnem ((((Insn.amoFunct7 funct5 aq rl).setWidth 32).signExtend 64).sshiftRight
      2).toNat = some mnem := by
    rw [signExtend_setWidth (by decide), toNat_sshiftRight_setWidth (by decide),
      extractLsb'_amoFunct7, hmnem]
  simp only [parseOpcode, toNat_extractOpcode_word, hop, parseAmo, extractFunct7_word,
    toNat_extractRs2_word, hsel, toNat_extractFunct3_word]
  cases width with
  | w => rfl
  | d => rfl

/-- Load reserved is recovered. -/
theorem recovers_lr (width : Width) (aq rl : BitVec 1) (rd rs1 : BitVec 5) :
    Recovers flags instr (.lr width aq rl rd rs1) := by
  have hmnem : amoMnem (0b00010 : BitVec 5).toNat = some .lrw := rfl
  refine ⟨_, parseAmo_word flags _ hmnem width aq rl rd rs1 0,
    ⟨rfl, toNat_extractRd_word .., toNat_extractRs1_word ..,
      signExtend_setWidth (by decide) (Insn.amoFunct7 0b00010 aq rl)⟩, rfl⟩

/-- Atomic operations and store conditional are recovered. -/
theorem recovers_amo (op : AmoOp) (width : Width) (aq rl : BitVec 1) (rd rs1 rs2 : BitVec 5) :
    Recovers flags instr (.amo op width aq rl rd rs1 rs2) := by
  obtain ⟨mnem, hmnem, hwidth⟩ := op.select width
  refine ⟨_, parseAmo_word flags _ hmnem width aq rl rd rs1 rs2,
    ⟨hwidth.symm, toNat_extractRd_word .., toNat_extractRs1_word .., rfl,
      signExtend_setWidth (by decide) (Insn.amoFunct7 op.code aq rl)⟩, rfl⟩

/-! ### Floating point -/

/-- The field of the rounding mode is read as it is, but for ties away from zero. -/
theorem roundingModeOf_setWidth (rm : BitVec 3) :
    roundingModeOf (rm.setWidth 32) = readRm rm := by
  revert rm
  decide

/-- The two parts of `funct7` are read back. -/
theorem extractLsb'_fpFunct7 (funct5 : BitVec 5) (width : Width) :
    (Insn.fpFunct7 funct5 width).extractLsb' 2 5 = funct5 ∧
      (Insn.fpFunct7 funct5 width).extractLsb' 0 2 = width.fmt := by
  constructor <;>
  · apply BitVec.eq_of_getLsbD_eq
    intro i hi
    interval_cases i <;> cases width <;> simp [Insn.fpFunct7, place, Width.fmt]

/-- The struct a fused multiplication fills. -/
def fmaStruct (rs2 rs3 : BitVec 5) (rm : BitVec 3) (mnem : RiscMnem) (s : RiscInstr) :
    RiscInstr :=
  { (({ s with optype := .float, regSrc2 := rs2.toNat } : RiscInstr).setRegSrc3
      (rs3.setWidth 32)).setRoundingMode (roundingModeOf (rm.setWidth 32)) with mnem := mnem }

/-- A fused operation of one of the two widths is decoded. -/
theorem parseFma_word (width : Width) (rs1 rs2 rs3 rd opcode : BitVec 5) (rm : BitVec 3)
    (single double : RiscMnem) :
    parseFma flags (word (Insn.fpFunct7 rs3 width) rs2 rs1 rm rd opcode) instr single double =
      .ok (0, fmaStruct rs2 rs3 rm (width.pick single double) instr) := by
  obtain ⟨hrs3, hfmt⟩ := extractLsb'_fpFunct7 rs3 width
  have hmnem : fmaMnem single double width.fmt.toNat = some (width.pick single double) := by
    cases width <;> rfl
  simp only [parseFma, toNat_extractRs2_word, extractRs3_word, hrs3, extractFunct3_word,
    toNat_extractFunct2_word, hfmt, hmnem, setMnemFp, Except.map]
  rfl

theorem fmaStruct_fields (rs2 rs3 : BitVec 5) (rm : BitVec 3) (mnem : RiscMnem)
    (s : RiscInstr) :
    (fmaStruct rs2 rs3 rm mnem s).regSrc3 = rs3.setWidth 32 ∧
      (fmaStruct rs2 rs3 rm mnem s).roundingMode = readRm rm := by
  rw [← roundingModeOf_setWidth]
  exact ⟨(RiscInstr.regSrc3_setRoundingMode _ _).trans (RiscInstr.regSrc3_setRegSrc3 _ _),
    RiscInstr.roundingMode_setRoundingMode _ _⟩

/-- Fused operations are recovered. -/
theorem recovers_fma (op : FmaOp) (width : Width) (rd rs1 rs2 rs3 : BitVec 5) (rm : BitVec 3) :
    Recovers flags instr (.fma op width rd rs1 rs2 rs3 rm) := by
  refine ⟨fmaStruct rs2 rs3 rm (op.mnem width)
      (basicStruct (Insn.fma op width rd rs1 rs2 rs3 rm).encode instr), ?_,
    ⟨rfl, toNat_extractRd_word .., toNat_extractRs1_word .., rfl,
      (fmaStruct_fields ..).1, (fmaStruct_fields ..).2⟩, rfl⟩
  have hop : (extractOpcode (Insn.fma op width rd rs1 rs2 rs3 rm).encode).toNat =
      op.code.toNat := toNat_extractOpcode_word ..
  cases op with
  | madd =>
      have hcode : FmaOp.madd.code.toNat = opMadd := rfl
      simp only [parseOpcode, hop, hcode]
      rw [Insn.encode, parseFma_word]
      cases width <;> rfl
  | msub =>
      have hcode : FmaOp.msub.code.toNat = opMsub := rfl
      simp only [parseOpcode, hop, hcode]
      rw [Insn.encode, parseFma_word]
      cases width <;> rfl
  | nmsub =>
      have hcode : FmaOp.nmsub.code.toNat = opNmsub := rfl
      simp only [parseOpcode, hop, hcode]
      rw [Insn.encode, parseFma_word]
      cases width <;> rfl
  | nmadd =>
      have hcode : FmaOp.nmadd.code.toNat = opNmadd := rfl
      simp only [parseOpcode, hop, hcode]
      rw [Insn.encode, parseFma_word]
      cases width <;> rfl

/-- The masks of `OP_OP_FP` lie above the seven bits they are compared with, so both
operands are always stored. -/
theorem fpOperands_eq (raw : BitVec 32) (s : RiscInstr) :
    fpOperands raw s =
      ({ s with optype := .float, regSrc2 := (extractRs2 raw).toNat } : RiscInstr).setRoundingMode
        (roundingModeOf (extractFunct3 raw)) := by
  have hmask (mask : BitVec 32) (h : 0x7f#32 &&& mask = 0#32) :
      extractFunct7 raw &&& mask = 0#32 := by
    rw [extractFunct7, BitVec.and_assoc, h, BitVec.and_zero]
  simp only [fpOperands, hmask 0x0100000#32 rfl, hmask 0x0010000#32 rfl, if_true]

theorem fpFunct7_fields (funct5 : BitVec 5) (width : Width) :
    (((Insn.fpFunct7 funct5 width).setWidth 32).sshiftRight 2).toNat = funct5.toNat ∧
      ((Insn.fpFunct7 funct5 width).setWidth 32 &&& 0x3#32).toNat = width.fmt.toNat := by
  obtain ⟨hupper, hlower⟩ := extractLsb'_fpFunct7 funct5 width
  constructor
  · rw [toNat_sshiftRight_setWidth (by decide), hupper]
  · rw [BitVec.toNat_and, BitVec.toNat_setWidth_of_le (by decide), ← hlower,
      BitVec.extractLsb'_toNat]
    exact Nat.and_two_pow_sub_one_eq_mod _ 2

/-- The struct `OP_OP_FP` fills, apart from its mnemonic. -/
def fpStruct (rs2 : BitVec 5) (rm : BitVec 3) (s : RiscInstr) : RiscInstr :=
  ({ s with optype := .float, regSrc2 := rs2.toNat } : RiscInstr).setRoundingMode
    (roundingModeOf (rm.setWidth 32))

/-- `OP_OP_FP` for a function code that selects a single precision mnemonic. -/
theorem parseOpFp_word {funct5 rs2 : BitVec 5} {rm : BitVec 3} {mnem : RiscMnem}
    (hmnem : fpMnem funct5.toNat rm.toNat rs2.toNat = some mnem) (width : Width)
    (rd rs1 : BitVec 5) :
    parseOpcode flags (word (Insn.fpFunct7 funct5 width) rs2 rs1 rm rd 0b10100) instr =
      .ok (0, { fpStruct rs2 rm instr with
        mnem := if funct5.toNat = 8 then mnem
          else width.pick mnem (offsetMnem mnem .fld .flw) }) := by
  obtain ⟨hupper, hlower⟩ := fpFunct7_fields funct5 width
  have hop : (0b10100 : BitVec 5).toNat = opOpFp := rfl
  have hrm : (rm.setWidth 32).toNat = rm.toNat := BitVec.toNat_setWidth_of_le (by decide)
  simp only [parseOpcode, toNat_extractOpcode_word, hop, parseOpFp, extractFunct7_word, hupper,
    hlower, fpOperands_eq, toNat_extractRs2_word, extractFunct3_word, hrm, hmnem, setMnemFp,
    Except.bind]
  by_cases hcvt : funct5.toNat = 8
  · rw [if_pos hcvt, if_pos hcvt]
    rfl
  · rw [if_neg hcvt, if_neg hcvt]
    cases width <;> rfl

theorem roundingMode_fpStruct (rs2 : BitVec 5) (rm : BitVec 3) (s : RiscInstr) :
    (fpStruct rs2 rm s).roundingMode = readRm rm := by
  rw [← roundingModeOf_setWidth]
  exact RiscInstr.roundingMode_setRoundingMode _ _

/-- Arithmetic on floating-point numbers is recovered. -/
theorem recovers_fArith (op : FArithOp) (width : Width) (rd rs1 rs2 : BitVec 5)
    (rm : BitVec 3) : Recovers flags instr (.fArith op width rd rs1 rs2 rm) := by
  obtain ⟨mnem, hmnem, hwidth⟩ := op.select width rm.toNat rs2.toNat
  have hcvt : op.code.toNat ≠ 8 := by cases op <;> decide
  refine ⟨_, parseOpFp_word flags _ hmnem width rd rs1,
    ⟨(if_neg hcvt).trans hwidth.symm, toNat_extractRd_word .., toNat_extractRs1_word .., rfl,
      roundingMode_fpStruct ..⟩, rfl⟩

/-- Sign injections, extrema and comparisons are recovered. -/
theorem recovers_fPair (op : FPairOp) (width : Width) (rd rs1 rs2 : BitVec 5) :
    Recovers flags instr (.fPair op width rd rs1 rs2) := by
  obtain ⟨mnem, hmnem, hwidth⟩ := op.select width rs2.toNat
  have hcvt : op.code.1.toNat ≠ 8 := by cases op <;> decide
  refine ⟨_, parseOpFp_word flags _ hmnem width rd rs1,
    ⟨(if_neg hcvt).trans hwidth.symm, toNat_extractRd_word .., toNat_extractRs1_word ..,
      rfl⟩, rfl⟩

/-- Square roots and conversions of integers are recovered. -/
theorem recovers_fUnary (op : FUnaryOp) (width : Width) (rd rs1 : BitVec 5) (rm : BitVec 3) :
    Recovers flags instr (.fUnary op width rd rs1 rm) := by
  obtain ⟨mnem, hmnem, hwidth⟩ := op.select width rm.toNat
  have hcvt : op.code.1.toNat ≠ 8 := by cases op <;> decide
  refine ⟨_, parseOpFp_word flags _ hmnem width rd rs1,
    ⟨(if_neg hcvt).trans hwidth.symm, toNat_extractRd_word .., toNat_extractRs1_word ..,
      roundingMode_fpStruct ..⟩, rfl⟩

/-- Moves between the register files and classes are recovered. -/
theorem recovers_fMove (op : FMoveOp) (width : Width) (rd rs1 : BitVec 5) :
    Recovers flags instr (.fMove op width rd rs1) := by
  obtain ⟨mnem, hmnem, hwidth⟩ := op.select width (0 : BitVec 5).toNat
  have hcvt : op.code.1.toNat ≠ 8 := by cases op <;> decide
  refine ⟨_, parseOpFp_word flags _ hmnem width rd rs1,
    ⟨(if_neg hcvt).trans hwidth.symm, toNat_extractRd_word .., toNat_extractRs1_word ..⟩, rfl⟩

theorem recovers_fcvtsd (rd rs1 : BitVec 5) (rm : BitVec 3) :
    Recovers flags instr (.fcvtsd rd rs1 rm) := by
  have hmnem : fpMnem (0b01000 : BitVec 5).toNat rm.toNat (1 : BitVec 5).toNat =
      some .fcvtsd := rfl
  refine ⟨_, parseOpFp_word flags _ hmnem .w rd rs1,
    ⟨rfl, toNat_extractRd_word .., toNat_extractRs1_word .., roundingMode_fpStruct ..⟩, rfl⟩

theorem recovers_fcvtds (rd rs1 : BitVec 5) (rm : BitVec 3) :
    Recovers flags instr (.fcvtds rd rs1 rm) := by
  have hmnem : fpMnem (0b01000 : BitVec 5).toNat rm.toNat (0 : BitVec 5).toNat =
      some .fcvtds := rfl
  refine ⟨_, parseOpFp_word flags _ hmnem .d rd rs1,
    ⟨rfl, toNat_extractRd_word .., toNat_extractRs1_word .., roundingMode_fpStruct ..⟩, rfl⟩

/-- Every instruction is recovered from its encoding. -/
theorem recovers (i : Insn) : Recovers flags instr i := by
  cases i with
  | reg op rd rs1 rs2 => exact recovers_reg ..
  | regImm op rd rs1 imm => exact recovers_regImm ..
  | shift op rd rs1 shamt => exact recovers_shift ..
  | shiftW op rd rs1 shamt => exact recovers_shiftW ..
  | store op rs1 rs2 imm => exact recovers_store ..
  | branch op rs1 rs2 imm => exact recovers_branch ..
  | lui rd imm => exact recovers_lui ..
  | auipc rd imm => exact recovers_auipc ..
  | jal rd imm => exact recovers_jal ..
  | fence rd rs1 imm => exact recovers_fence ..
  | fenceI rd rs1 imm => exact recovers_fenceI ..
  | ecall => exact recovers_ecall ..
  | ebreak => exact recovers_ebreak ..
  | csrAccess op rd rs1 csr => exact recovers_csrAccess ..
  | lr width aq rl rd rs1 => exact recovers_lr ..
  | amo op width aq rl rd rs1 rs2 => exact recovers_amo ..
  | loadFp width rd rs1 imm => exact recovers_loadFp ..
  | storeFp width rs1 rs2 imm => exact recovers_storeFp ..
  | fma op width rd rs1 rs2 rs3 rm => exact recovers_fma ..
  | fArith op width rd rs1 rs2 rm => exact recovers_fArith ..
  | fPair op width rd rs1 rs2 => exact recovers_fPair ..
  | fUnary op width rd rs1 rm => exact recovers_fUnary ..
  | fMove op width rd rs1 => exact recovers_fMove ..
  | fcvtsd rd rs1 rm => exact recovers_fcvtsd ..
  | fcvtds rd rs1 rm => exact recovers_fcvtds ..

end

/-- Decoding undoes encoding: on memory that holds the word of an instruction,
`parse_instruction` succeeds and fills the struct with that instruction. -/
theorem parseInstruction_encode (flags : Flags) (mem : CodeMem) (instr : RiscInstr) (i : Insn)
    (hmem : mem instr.addr = some i.encode) :
    ∃ r, parseInstruction flags mem instr = .ok (0, r) ∧ Decoded r i ∧
      r.addr = instr.addr := by
  obtain ⟨r, hparse, hdec, haddr⟩ := recovers flags instr i
  refine ⟨r, ?_, hdec, haddr⟩
  simp only [parseInstruction, hmem]
  exact hparse

/-- A fused multiplication with rounding mode `RMM`. -/
theorem parseInstruction_encode_fma :
    ∃ r, parseInstruction {} (fun _ => some 0x12c7c3c3#32) (RiscInstr.ofAddr 0x1000) =
        .ok (0, r) ∧
      Decoded r (.fma .madd .d 7 15 12 2 4) ∧ r.addr = 0x1000 :=
  parseInstruction_encode {} (fun _ => some 0x12c7c3c3#32) (RiscInstr.ofAddr 0x1000)
    (.fma .madd .d 7 15 12 2 4) (by decide)

end RiaJit.Encoding
