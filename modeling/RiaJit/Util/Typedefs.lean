import Mathlib.Data.BitVec

/-!
# Instruction data

The types of `util/typedefs.h` and `env/exit.h` that the parser and the
translator share. Registers are numbered as in `t_risc_reg`; the field that holds
one is also used for floating point registers, saved mnemonics and error codes,
so it is a plain number.
-/

set_option autoImplicit false

namespace RiaJit

/-- `t_risc_addr`, a guest address. -/
abbrev RiscAddr := BitVec 64

/-- `t_risc_mnem`, in the order of the enumeration. The parser adds offsets to
mnemonics, so the order is part of the model. -/
inductive RiscMnem where
  | invalidMnem | lui | auipc | jal | jalr | beq | bne | blt | bge | bltu | bgeu | lb | lh
  | lw | lbu | lhu | sb | sh | sw | addi | slti | sltiu | xori | ori | andi | slli | srli
  | srai | add | sub | sll | slt | sltu | xor | srl | sra | or | and | fence | ecall | ebreak
  | fenceI | csrrw | csrrs | csrrc | csrrwi | csrrsi | csrrci | manualCsrr | lwu | ld | sd
  | addiw | slliw | srliw | sraiw | addw | subw | sllw | srlw | sraw | mul | mulh | mulhsu
  | mulhu | div | divu | rem | remu | mulw | divw | divuw | remw | remuw | lrw | scw
  | amoswapw | amoaddw | amoxorw | amoandw | amoorw | amominw | amomaxw | amominuw | amomaxuw
  | lrd | scd | amoswapd | amoaddd | amoxord | amoandd | amoord | amomind | amomaxd | amominud
  | amomaxud | flw | fsw | fmadds | fmsubs | fnmsubs | fnmadds | fadds | fsubs | fmuls | fdivs
  | fsqrts | fsgnjs | fsgnjns | fsgnjxs | fmins | fmaxs | fcvtws | fcvtwus | fmvxw | feqs
  | flts | fles | fclasss | fcvtsw | fcvtswu | fmvwx | fcvtls | fcvtlus | fcvtsl | fcvtslu
  | fld | fsd | fmaddd | fmsubd | fnmsubd | fnmaddd | faddd | fsubd | fmuld | fdivd | fsqrtd
  | fsgnjd | fsgnjnd | fsgnjxd | fmind | fmaxd | fcvtwd | fcvtwud | fmvxd | feqd | fltd | fled
  | fclassd | fcvtdw | fcvtdwu | fmvdx | fcvtld | fcvtlud | fcvtdl | fcvtdlu | fcvtsd | fcvtds
  | pcNextInst | silentNop | patternEmit
  deriving DecidableEq, Repr

/-- `t_risc_optype`. -/
inductive RiscOptype where
  | regReg | immediate | upperImmediate | store | branch | jump | system | float
  | invalidInstruction | invalidBlock | pseudo
  deriving DecidableEq, Repr

/-- The error codes of `t_error_enum`, in order. -/
inductive ErrorEnum where
  | unknown | f3MiscMem | f3Branch | f3Load | f3Store | f3Op | f3System | f3Imm32 | f3Rv64m
  | f3_32 | f3Imm | f7Amo | f3Amo
  deriving DecidableEq, Repr

/-- The exit codes of `t_exit_code`. -/
inductive ExitCode where
  | exitOk | failHeapAlloc | failInvalidPath | failMapFile | failIncompatible | failAssemblyErr
  | failNotImpl | failInvalidState | failInvalidCode
  deriving DecidableEq, Repr

/-- `x0`, hardwired to zero. -/
abbrev x0 : Nat := 0

/-- `x1`, the return address register. -/
abbrev x1 : Nat := 1

/-- `x5`, the alternate link register. -/
abbrev x5 : Nat := 5

/-- `pc`, the slot of the program counter in the register file. -/
abbrev pc : Nat := 32

/-- `INVALID_REG`. -/
abbrev invalidReg : Nat := 33

/-- `RNE` of `t_risc_rm`: to nearest, ties to even. -/
abbrev rne : BitVec 32 := 0

/-- `RMM` of `t_risc_rm`: to nearest, ties away from zero. -/
abbrev rmm : BitVec 32 := 4

/-- `t_risc_instr`. The union of `imm` with `reg_src_3` and `rounding_mode` is the
64-bit field `imm`; its low half is `reg_src_3`, its high half `rounding_mode`. -/
structure RiscInstr where
  addr : RiscAddr
  mnem : RiscMnem
  optype : RiscOptype
  regSrc1 : Nat
  regSrc2 : Nat
  regDest : Nat
  imm : BitVec 64
  deriving DecidableEq, Repr

namespace RiscInstr

/-- A struct whose named field is `addr`; the other fields are zero. -/
def ofAddr (addr : RiscAddr) : RiscInstr :=
  ⟨addr, .invalidMnem, .regReg, 0, 0, 0, 0⟩

/-- `reg_src_3`, the low half of the union. -/
def regSrc3 (instr : RiscInstr) : BitVec 32 := instr.imm.extractLsb' 0 32

/-- `rounding_mode`, the high half of the union. -/
def roundingMode (instr : RiscInstr) : BitVec 32 := instr.imm.extractLsb' 32 32

/-- Assignment to `reg_src_3`. -/
def setRegSrc3 (instr : RiscInstr) (v : BitVec 32) : RiscInstr :=
  { instr with imm := instr.roundingMode ++ v }

/-- Assignment to `rounding_mode`. -/
def setRoundingMode (instr : RiscInstr) (v : BitVec 32) : RiscInstr :=
  { instr with imm := v ++ instr.regSrc3 }

@[simp] theorem regSrc3_setRegSrc3 (instr : RiscInstr) (v : BitVec 32) :
    (instr.setRegSrc3 v).regSrc3 = v :=
  BitVec.extractLsb'_append_eq_right

@[simp] theorem roundingMode_setRegSrc3 (instr : RiscInstr) (v : BitVec 32) :
    (instr.setRegSrc3 v).roundingMode = instr.roundingMode :=
  BitVec.extractLsb'_append_eq_left

@[simp] theorem roundingMode_setRoundingMode (instr : RiscInstr) (v : BitVec 32) :
    (instr.setRoundingMode v).roundingMode = v :=
  BitVec.extractLsb'_append_eq_left

@[simp] theorem regSrc3_setRoundingMode (instr : RiscInstr) (v : BitVec 32) :
    (instr.setRoundingMode v).regSrc3 = instr.regSrc3 :=
  BitVec.extractLsb'_append_eq_right

end RiscInstr

/-- The run-time flags of `env/flags.c` that the modelled functions read, and the
build switch `NDEBUG`. -/
structure Flags where
  failSilently : Bool := false
  singleStep : Bool := false
  translateOptRas : Bool := true
  translateOptChain : Bool := true
  translateOptJump : Bool := true
  translateOptFusion : Bool := true
  doProfile : Bool := false
  verboseDisassembly : Bool := false
  ndebug : Bool := true
  deriving DecidableEq, Repr

end RiaJit
