import RiaJit.Util.Typedefs

/-!
# The instruction parser

`parser/parser.c`. A raw instruction is an `int32_t`, so shifts to the right are
arithmetic and an immediate is sign extended when it is stored in the 64-bit field
`imm`. The switch over the opcode is one function per group of cases.
-/

set_option autoImplicit false

namespace RiaJit

/-- The ways a run of the translator stops: a fetch from an unmapped address, or
`panic`. -/
inductive Abort where
  | segfault (addr : RiscAddr)
  | panic (reason : ExitCode)
  deriving DecidableEq, Repr

/-- Guest code memory: the instruction word at an address, if it is mapped. -/
abbrev CodeMem := RiscAddr → Option (BitVec 32)

/-- The memory that holds a list of words from an address on. -/
def CodeMem.ofWords (base : RiscAddr) (words : List (BitVec 32)) : CodeMem := fun a =>
  if (a - base).toNat % 4 = 0 then words[(a - base).toNat / 4]? else none

/-- `critical_not_yet_implemented`: `panic(FAIL_NOT_IMPL)`, or a warning under
`flag_fail_silently`, after which the caller goes on with `x`. -/
def criticalNotYetImplemented {α : Type} (flags : Flags) (x : α) : Except Abort α :=
  if flags.failSilently then .ok x else .error (.panic .failNotImpl)

namespace Parser

/-! ## Fields of a raw instruction -/

/-- `extract_rd`, bits 11:7. -/
def extractRd (instr : BitVec 32) : BitVec 32 := instr.sshiftRight 7 &&& 0x1f#32

/-- `extract_rs1`, bits 19:15. -/
def extractRs1 (instr : BitVec 32) : BitVec 32 := instr.sshiftRight 15 &&& 0x1f#32

/-- `extract_rs2`, bits 24:20. -/
def extractRs2 (instr : BitVec 32) : BitVec 32 := instr.sshiftRight 20 &&& 0x1f#32

/-- `extract_rs3`, bits 31:27. -/
def extractRs3 (instr : BitVec 32) : BitVec 32 := instr.sshiftRight 27 &&& 0x1f#32

/-- `extract_funct2`, bits 26:25. -/
def extractFunct2 (instr : BitVec 32) : BitVec 32 := instr.sshiftRight 25 &&& 0x3#32

/-- `extract_funct3`, bits 14:12. -/
def extractFunct3 (instr : BitVec 32) : BitVec 32 := instr.sshiftRight 12 &&& 0x7#32

/-- `extract_funct7`, bits 31:25. -/
def extractFunct7 (instr : BitVec 32) : BitVec 32 := instr.sshiftRight 25 &&& 0x7f#32

/-- `extract_big_shamt`, bits 25:20. -/
def extractBigShamt (instr : BitVec 32) : BitVec 32 := instr.sshiftRight 20 &&& 0x3f#32

/-- `extract_small_shamt`, bits 24:20. -/
def extractSmallShamt (instr : BitVec 32) : BitVec 32 := instr.sshiftRight 20 &&& 0x1f#32

/-- `extract_imm_U`, bits 31:12 over zeros. -/
def extractImmU (instr : BitVec 32) : BitVec 32 := instr &&& ~~~0xfff#32

/-- `extract_imm_I`, bits 31:20. -/
def extractImmI (instr : BitVec 32) : BitVec 32 := instr.sshiftRight 20

/-- `extract_imm_S`, bits 31:25 and 11:7. -/
def extractImmS (instr : BitVec 32) : BitVec 32 :=
  (instr.sshiftRight 20 &&& ~~~0x1f#32) ||| (instr.sshiftRight 7 &&& 0x1f#32)

/-- `extract_imm_J`. -/
def extractImmJ (instr : BitVec 32) : BitVec 32 :=
  (instr &&& 0xff000#32) ||| (instr.sshiftRight 9 &&& 0x800#32) |||
    (instr.sshiftRight 11 &&& 0x100000#32) ||| (instr.sshiftRight 20 &&& 0xffe007fe#32)

/-- `extract_imm_B`. -/
def extractImmB (instr : BitVec 32) : BitVec 32 :=
  (instr.sshiftRight 19 &&& 0xfffff000#32) ||| (instr <<< 4 &&& 0x800#32) |||
    (instr.sshiftRight 20 &&& 0x7e0#32) ||| (instr.sshiftRight 7 &&& 0x1e#32)

/-- The opcode, bits 6:2. -/
def extractOpcode (instr : BitVec 32) : BitVec 32 := instr.sshiftRight 2 &&& 0x1f#32

/-! ## Opcodes -/

/-- The values of `t_opcodes`. -/
@[match_pattern] abbrev opLoad : Nat := 0
@[match_pattern, inherit_doc opLoad] abbrev opLoadFp : Nat := 1
@[match_pattern, inherit_doc opLoad] abbrev opMiscMem : Nat := 3
@[match_pattern, inherit_doc opLoad] abbrev opOpImm : Nat := 4
@[match_pattern, inherit_doc opLoad] abbrev opAuipc : Nat := 5
@[match_pattern, inherit_doc opLoad] abbrev opOpImm32 : Nat := 6
@[match_pattern, inherit_doc opLoad] abbrev opStore : Nat := 8
@[match_pattern, inherit_doc opLoad] abbrev opStoreFp : Nat := 9
@[match_pattern, inherit_doc opLoad] abbrev opAmo : Nat := 11
@[match_pattern, inherit_doc opLoad] abbrev opOp : Nat := 12
@[match_pattern, inherit_doc opLoad] abbrev opLui : Nat := 13
@[match_pattern, inherit_doc opLoad] abbrev opOp32 : Nat := 14
@[match_pattern, inherit_doc opLoad] abbrev opMadd : Nat := 16
@[match_pattern, inherit_doc opLoad] abbrev opMsub : Nat := 17
@[match_pattern, inherit_doc opLoad] abbrev opNmsub : Nat := 18
@[match_pattern, inherit_doc opLoad] abbrev opNmadd : Nat := 19
@[match_pattern, inherit_doc opLoad] abbrev opOpFp : Nat := 20
@[match_pattern, inherit_doc opLoad] abbrev opBranch : Nat := 24
@[match_pattern, inherit_doc opLoad] abbrev opJalr : Nat := 25
@[match_pattern, inherit_doc opLoad] abbrev opJal : Nat := 27
@[match_pattern, inherit_doc opLoad] abbrev opSystem : Nat := 28

/-! ## Results -/

/-- What `parse_instruction` leaves behind: its return value and the struct. -/
abbrev Parsed := Except Abort (Nat × RiscInstr)

/-- `set_error_message`. -/
def setErrorMessage (raw : BitVec 32) (instr : RiscInstr) (errorCode : ErrorEnum) :
    Nat × RiscInstr :=
  (errorCode.ctorIdx,
    { instr with
      optype := .invalidInstruction
      mnem := .invalidMnem
      regDest := errorCode.ctorIdx
      imm := raw.signExtend 64 })

/-- A switch that stores a mnemonic, with `set_error_message` as its default. -/
def setMnem (raw : BitVec 32) (instr : RiscInstr) (errorCode : ErrorEnum)
    (mnem : Option RiscMnem) : Parsed :=
  match mnem with
  | some mnem => .ok (0, { instr with mnem := mnem })
  | none => .ok (setErrorMessage raw instr errorCode)

/-- A switch that stores a mnemonic, with `critical_not_yet_implemented` as its
default. -/
def setMnemFp (flags : Flags) (instr : RiscInstr) (mnem : Option RiscMnem) :
    Except Abort RiscInstr :=
  match mnem with
  | some mnem => .ok { instr with mnem := mnem }
  | none => criticalNotYetImplemented flags instr

/-! ## The cases of the opcode switch -/

/-- The struct before the switch. -/
def basicStruct (raw : BitVec 32) (instr : RiscInstr) : RiscInstr :=
  { instr with
    regDest := (extractRd raw).toNat
    regSrc1 := (extractRs1 raw).toNat
    regSrc2 := invalidReg }

/-- Mnemonics of `OP_LOAD` by `funct3`. -/
def loadMnem : Nat → Option RiscMnem
  | 0 => some .lb
  | 1 => some .lh
  | 2 => some .lw
  | 3 => some .ld
  | 4 => some .lbu
  | 5 => some .lhu
  | 6 => some .lwu
  | _ => none

/-- `OP_LOAD`. -/
def parseLoad (raw : BitVec 32) (instr : RiscInstr) : Parsed :=
  setMnem raw { instr with optype := .immediate, imm := (extractImmI raw).signExtend 64 }
    .f3Load (loadMnem (extractFunct3 raw).toNat)

/-- Mnemonics of `OP_STORE` by `funct3`. -/
def storeMnem : Nat → Option RiscMnem
  | 0 => some .sb
  | 1 => some .sh
  | 2 => some .sw
  | 3 => some .sd
  | _ => none

/-- `OP_STORE`. -/
def parseStore (raw : BitVec 32) (instr : RiscInstr) : Parsed :=
  setMnem raw
    { instr with
      optype := .store
      imm := (extractImmS raw).signExtend 64
      regDest := invalidReg
      regSrc2 := (extractRs2 raw).toNat }
    .f3Store (storeMnem (extractFunct3 raw).toNat)

/-- Mnemonics of `OP_BRANCH` by `funct3`. -/
def branchMnem : Nat → Option RiscMnem
  | 0 => some .beq
  | 1 => some .bne
  | 4 => some .blt
  | 5 => some .bge
  | 6 => some .bltu
  | 7 => some .bgeu
  | _ => none

/-- `OP_BRANCH`. -/
def parseBranch (raw : BitVec 32) (instr : RiscInstr) : Parsed :=
  setMnem raw
    { instr with
      optype := .branch
      regSrc2 := (extractRs2 raw).toNat
      regDest := invalidReg
      imm := (extractImmB raw).signExtend 64 }
    .f3Branch (branchMnem (extractFunct3 raw).toNat)

/-- Mnemonics of `OP_MISC_MEM` by `funct3`. -/
def miscMemMnem : Nat → Option RiscMnem
  | 0 => some .fence
  | 1 => some .fenceI
  | _ => none

/-- `OP_MISC_MEM`. -/
def parseMiscMem (raw : BitVec 32) (instr : RiscInstr) : Parsed :=
  setMnem raw { instr with optype := .system, imm := (extractImmI raw).signExtend 64 }
    .f3MiscMem (miscMemMnem (extractFunct3 raw).toNat)

/-- Mnemonics of `OP_OP` by `funct3` where bit 25 is set. -/
def opMnemMul : Nat → Option RiscMnem
  | 0 => some .mul
  | 1 => some .mulh
  | 2 => some .mulhsu
  | 3 => some .mulhu
  | 4 => some .div
  | 5 => some .divu
  | 6 => some .rem
  | 7 => some .remu
  | _ => none

/-- Mnemonics of `OP_OP` by `funct3` where bit 25 is clear, with bit 30. -/
def opMnem (bit30 : Bool) : Nat → Option RiscMnem
  | 0 => some (if bit30 then .sub else .add)
  | 1 => some .sll
  | 2 => some .slt
  | 3 => some .sltu
  | 4 => some .xor
  | 5 => some (if bit30 then .sra else .srl)
  | 6 => some .or
  | 7 => some .and
  | _ => none

/-- `OP_OP`. -/
def parseOp (raw : BitVec 32) (instr : RiscInstr) : Parsed :=
  let funct3 := (extractFunct3 raw).toNat
  setMnem raw { instr with optype := .regReg, regSrc2 := (extractRs2 raw).toNat } .f3Op
    (if raw.getLsbD 25 then opMnemMul funct3 else opMnem (raw.getLsbD 30) funct3)

/-- Mnemonics of `OP_OP_32` by `funct3` where bit 25 is set. -/
def op32MnemMul : Nat → Option RiscMnem
  | 0 => some .mulw
  | 4 => some .divw
  | 5 => some .divuw
  | 6 => some .remw
  | 7 => some .remuw
  | _ => none

/-- Mnemonics of `OP_OP_32` by `funct3` where bit 25 is clear, with bit 30. -/
def op32Mnem (bit30 : Bool) : Nat → Option RiscMnem
  | 0 => some (if bit30 then .subw else .addw)
  | 1 => some .sllw
  | 5 => some (if bit30 then .sraw else .srlw)
  | _ => none

/-- `OP_OP_32`. The two defaults report different errors. -/
def parseOp32 (raw : BitVec 32) (instr : RiscInstr) : Parsed :=
  let instr := { instr with optype := .regReg, regSrc2 := (extractRs2 raw).toNat }
  let funct3 := (extractFunct3 raw).toNat
  if raw.getLsbD 25 then setMnem raw instr .f3Rv64m (op32MnemMul funct3)
  else setMnem raw instr .f3_32 (op32Mnem (raw.getLsbD 30) funct3)

/-- Mnemonics of `OP_SYSTEM` by `funct3`, with bit 20 of the word. -/
def systemMnem (bit20 : Bool) : Nat → Option RiscMnem
  | 0 => some (if bit20 then .ebreak else .ecall)
  | 1 => some .csrrw
  | 2 => some .csrrs
  | 3 => some .csrrc
  | 5 => some .csrrwi
  | 6 => some .csrrsi
  | 7 => some .csrrci
  | _ => none

/-- `OP_SYSTEM`. -/
def parseSystem (raw : BitVec 32) (instr : RiscInstr) : Parsed :=
  setMnem raw { instr with optype := .system, imm := (extractImmI raw).signExtend 64 }
    .f3System (systemMnem (raw.getLsbD 20) (extractFunct3 raw).toNat)

/-- Mnemonics and immediates of `OP_OP_IMM_32`. -/
def opImm32Mnem (raw : BitVec 32) : Option (RiscMnem × BitVec 32) :=
  match (extractFunct3 raw).toNat with
  | 0 => some (.addiw, extractImmI raw)
  | 1 => some (.slliw, extractSmallShamt raw)
  | 5 => some (if raw.getLsbD 30 then .sraiw else .srliw, extractSmallShamt raw)
  | _ => none

/-- Mnemonics and immediates of `OP_OP_IMM`. -/
def opImmMnem (raw : BitVec 32) : Option (RiscMnem × BitVec 32) :=
  match (extractFunct3 raw).toNat with
  | 0 => some (.addi, extractImmI raw)
  | 1 => some (.slli, extractBigShamt raw)
  | 2 => some (.slti, extractImmI raw)
  | 3 => some (.sltiu, extractImmI raw)
  | 4 => some (.xori, extractImmI raw)
  | 5 => some (if raw.getLsbD 30 then .srai else .srli, extractBigShamt raw)
  | 6 => some (.ori, extractImmI raw)
  | 7 => some (.andi, extractImmI raw)
  | _ => none

/-- The two immediate opcodes: both fields are stored by the inner switch. -/
def parseOpImm (raw : BitVec 32) (instr : RiscInstr) (errorCode : ErrorEnum)
    (sel : Option (RiscMnem × BitVec 32)) : Parsed :=
  let instr := { instr with optype := .immediate }
  match sel with
  | some (mnem, imm) => .ok (0, { instr with mnem := mnem, imm := imm.signExtend 64 })
  | none => .ok (setErrorMessage raw instr errorCode)

/-- `OP_LOAD_FP` and `OP_STORE_FP` by `funct3`. -/
def widthMnem (single double : RiscMnem) : Nat → Option RiscMnem
  | 2 => some single
  | 3 => some double
  | _ => none

/-- `OP_LOAD_FP`. -/
def parseLoadFp (flags : Flags) (raw : BitVec 32) (instr : RiscInstr) : Parsed :=
  (setMnemFp flags { instr with optype := .float, imm := (extractImmI raw).signExtend 64 }
    (widthMnem .flw .fld (extractFunct3 raw).toNat)).map (0, ·)

/-- `OP_STORE_FP`. -/
def parseStoreFp (flags : Flags) (raw : BitVec 32) (instr : RiscInstr) : Parsed :=
  (setMnemFp flags
    { instr with
      optype := .float
      imm := (extractImmS raw).signExtend 64
      regSrc2 := (extractRs2 raw).toNat }
    (widthMnem .fsw .fsd (extractFunct3 raw).toNat)).map (0, ·)

/-- The stored rounding mode: `RMM` falls back to `RNE` with a warning. -/
def roundingModeOf (funct3 : BitVec 32) : BitVec 32 := if funct3 = rmm then rne else funct3

/-- The operand size of the fused operations, from `funct2`. -/
def fmaMnem (single double : RiscMnem) : Nat → Option RiscMnem
  | 0 => some single
  | 1 => some double
  | _ => none

/-- `OP_MADD`, `OP_MSUB`, `OP_NMADD` and `OP_NMSUB`. An operand size outside the two keeps the
mnemonic of `instr`: `OP_MADD` sets `FMADDS` beforehand, the other three leave `INVALID_MNEM`. -/
def parseFma (flags : Flags) (raw : BitVec 32) (instr : RiscInstr)
    (single double : RiscMnem) : Parsed :=
  let instr := { instr with optype := .float, regSrc2 := (extractRs2 raw).toNat }
  let instr :=
    (instr.setRegSrc3 (extractRs3 raw)).setRoundingMode (roundingModeOf (extractFunct3 raw))
  (setMnemFp flags instr (fmaMnem single double (extractFunct2 raw).toNat)).map (0, ·)

/-- Single precision mnemonics of `OP_OP_FP`, by the upper bits of `funct7`. -/
def fpMnem (funct7 funct3 rs2 : Nat) : Option RiscMnem :=
  match funct7 with
  | 0 => some .fadds
  | 1 => some .fsubs
  | 2 => some .fmuls
  | 3 => some .fdivs
  | 4 =>
      match funct3 with
      | 0 => some .fsgnjs
      | 1 => some .fsgnjns
      | 2 => some .fsgnjxs
      | _ => none
  | 5 =>
      match funct3 with
      | 0 => some .fmins
      | 1 => some .fmaxs
      | _ => none
  -- conversions between the formats: `rs2` names the source's
  | 8 =>
      match rs2 with
      | 0 => some .fcvtds
      | 1 => some .fcvtsd
      | _ => none
  | 11 => some .fsqrts
  -- comparisons
  | 20 =>
      match funct3 with
      | 0 => some .fles
      | 1 => some .flts
      | 2 => some .feqs
      | _ => none
  -- conversions to an integer and from one
  | 24 =>
      match rs2 with
      | 0 => some .fcvtws
      | 1 => some .fcvtwus
      | 2 => some .fcvtls
      | 3 => some .fcvtlus
      | _ => none
  | 26 =>
      match rs2 with
      | 0 => some .fcvtsw
      | 1 => some .fcvtswu
      | 2 => some .fcvtsl
      | 3 => some .fcvtslu
      | _ => none
  | 28 =>
      match funct3 with
      | 0 => some .fmvxw
      | 1 => some .fclasss
      | _ => none
  | 30 => some .fmvwx
  | _ => none

/-- `mnem += upper - lower`, an offset in the enumeration. -/
def offsetMnem (mnem upper lower : RiscMnem) : RiscMnem :=
  .ofNat (mnem.ctorIdx + (upper.ctorIdx - lower.ctorIdx))

/-- The operand size of `OP_OP_FP`; double precision is an offset. -/
def fitOperandSize (flags : Flags) (operandSize : Nat) (instr : RiscInstr) :
    Except Abort RiscInstr :=
  match operandSize with
  | 0 => .ok instr
  | 1 => .ok { instr with mnem := offsetMnem instr.mnem .fld .flw }
  | _ => criticalNotYetImplemented flags instr

/-- The operands of `OP_OP_FP`. The masks are compared with the seven bits of
`funct7`, as in the source. -/
def fpOperands (raw : BitVec 32) (instr : RiscInstr) : RiscInstr :=
  let funct7 := extractFunct7 raw
  let instr := { instr with optype := .float }
  let instr :=
    if funct7 &&& 0x0100000#32 = 0#32 then
      { instr with regSrc2 := (extractRs2 raw).toNat }
    else instr
  if funct7 &&& 0x0010000#32 = 0#32 then
    instr.setRoundingMode (roundingModeOf (extractFunct3 raw))
  else instr

/-- `OP_OP_FP`. -/
def parseOpFp (flags : Flags) (raw : BitVec 32) (instr : RiscInstr) : Parsed :=
  let funct7 := ((extractFunct7 raw).sshiftRight 2).toNat
  let operandSize := (extractFunct7 raw &&& 0x3#32).toNat
  (setMnemFp flags (fpOperands raw instr)
      (fpMnem funct7 (extractFunct3 raw).toNat (extractRs2 raw).toNat)).bind fun instr =>
    if funct7 = 8 then .ok (0, instr)
    else (fitOperandSize flags operandSize instr).map (0, ·)

/-- 32-bit mnemonics of `OP_AMO`, by the upper five bits of `funct7`. -/
def amoMnem : Nat → Option RiscMnem
  | 0 => some .amoaddw
  | 1 => some .amoswapw
  | 2 => some .lrw
  | 3 => some .scw
  | 4 => some .amoxorw
  | 8 => some .amoorw
  | 12 => some .amoandw
  | 16 => some .amominw
  | 20 => some .amomaxw
  | 24 => some .amominuw
  | 28 => some .amomaxuw
  | _ => none

/-- `OP_AMO`. The optype is the one the struct already has. -/
def parseAmo (raw : BitVec 32) (instr : RiscInstr) : Parsed :=
  let instr :=
    { instr with
      regSrc2 := (extractRs2 raw).toNat
      imm := (extractFunct7 raw).signExtend 64 }
  match amoMnem (instr.imm.sshiftRight 2).toNat with
  | none => .ok (setErrorMessage raw instr .f7Amo)
  | some mnem =>
      match (extractFunct3 raw).toNat with
      | 2 => .ok (0, { instr with mnem := mnem })
      | 3 => .ok (0, { instr with mnem := offsetMnem mnem .lrd .lrw })
      | _ => .ok (setErrorMessage raw { instr with mnem := mnem } .f3Amo)

/-- The switch over the opcode, on the struct filled by `basicStruct`. -/
def parseOpcode (flags : Flags) (raw : BitVec 32) (instr : RiscInstr) : Parsed :=
  match (extractOpcode raw).toNat with
  | opLui =>
      .ok (0, { instr with
        optype := .upperImmediate
        mnem := .lui
        regSrc1 := invalidReg
        imm := (extractImmU raw).signExtend 64 })
  | opAuipc =>
      .ok (0, { instr with
        optype := .immediate
        mnem := .auipc
        regSrc1 := invalidReg
        imm := (extractImmU raw).signExtend 64 })
  | opJal =>
      .ok (0, { instr with
        optype := .jump
        mnem := .jal
        regSrc1 := invalidReg
        imm := (extractImmJ raw).signExtend 64 })
  | opJalr =>
      .ok (0, { instr with
        optype := .jump
        mnem := .jalr
        imm := (extractImmI raw).signExtend 64 })
  | opLoadFp => parseLoadFp flags raw instr
  | opStoreFp => parseStoreFp flags raw instr
  | opMiscMem => parseMiscMem raw instr
  | opBranch => parseBranch raw instr
  | opLoad => parseLoad raw instr
  | opStore => parseStore raw instr
  | opOp => parseOp raw instr
  | opSystem => parseSystem raw instr
  | opOpImm32 => parseOpImm raw instr .f3Imm32 (opImm32Mnem raw)
  | opOp32 => parseOp32 raw instr
  | opOpImm => parseOpImm raw instr .f3Imm (opImmMnem raw)
  | opMadd => parseFma flags raw { instr with mnem := .fmadds } .fmadds .fmaddd
  | opMsub => parseFma flags raw instr .fmsubs .fmsubd
  | opNmadd => parseFma flags raw instr .fnmadds .fnmaddd
  | opNmsub => parseFma flags raw instr .fnmsubs .fnmsubd
  | opOpFp => parseOpFp flags raw instr
  | opAmo => parseAmo raw instr
  | _ => .ok (setErrorMessage raw instr .unknown)

/-- `parse_instruction`, on a struct whose `addr` is set. -/
def parseInstruction (flags : Flags) (mem : CodeMem) (instr : RiscInstr) : Parsed :=
  match mem instr.addr with
  | none => .error (.segfault instr.addr)
  | some raw => parseOpcode flags raw (basicStruct raw instr)

end Parser

end RiaJit
