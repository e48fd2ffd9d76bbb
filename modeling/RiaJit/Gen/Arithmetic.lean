import RiaJit.Gen.RegisterInfo

/-!
# Arithmetic and memory instructions

`translate_arithmetic.c` and `translate_loadstore.c`. A family of functions that
differ in a mnemonic is one definition with that mnemonic as a parameter.
-/

set_option autoImplicit false

namespace RiaJit.Translate

open EmitLogic X86

/-- `FE_MEM(reg, 0, 0, off)`. -/
def memAt (reg : FeReg) (off : BitVec 64) : MemOp := ⟨some reg, none, off⟩

variable (flags : Flags) (instr : RiscInstr)

/-! ## Immediates -/

/-- `translate_LUI`. -/
def translateLUI : Gen Unit := do
  let regDest ← getRd flags instr
  feEnc64 (.mov64ri regDest instr.imm)

/-- `translate_AUIPC`. -/
def translateAUIPC : Gen Unit :=
  onlyIf (instr.regDest ≠ x0) do
    let regDest ← getRd flags instr
    feEnc64 (.mov64ri regDest (instr.addr + instr.imm))

/-- The addition of `translate_ADDI` and `translate_ADDIW`. -/
def addImm (size : OpSize) (regSrc1 regDest : FeReg) : Gen Unit :=
  if regDest ≠ regSrc1 then feEnc64 (.lea size regDest (memAt regSrc1 instr.imm))
  else onlyIf (instr.imm ≠ 0#64) (feEnc64 (.aluri .add size regDest instr.imm))

/-- `translate_ADDI`. -/
def translateADDI : Gen Unit := do
  let regSrc1 ← getRs1 flags instr
  let regDest ← getRd flags instr
  addImm instr .s64 regSrc1 regDest

/-- `translate_ADDIW`. -/
def translateADDIW : Gen Unit := do
  let regSrc1 ← getRs1 flags instr
  let regDest ← getRd flags instr
  addImm instr .s32 regSrc1 regDest
  feEnc64 (.movsxr64r32 regDest regDest)

/-- `translate_SLTI` and `translate_SLTIU`. -/
def setImm (cond : Cond) : Gen Unit := do
  let regSrc1 ← getRs1 flags instr
  let regDest ← getRd flags instr
  feEnc64 (.cmp64ri regSrc1 instr.imm)
  feEnc64 (.set8r cond regDest)
  feEnc64 (.movzxr32r8 regDest regDest)

/-- `translate_SLTI`. -/
def translateSLTI : Gen Unit := setImm flags instr .l

/-- `translate_SLTIU`. -/
def translateSLTIU : Gen Unit := setImm flags instr .c

/-- A move of `rs1` to `rd` unless they share a register. -/
def moveUnlessSame (size : OpSize) (regDest regSrc1 : FeReg) : Gen Unit :=
  onlyIf (regDest ≠ regSrc1) (feEnc64 (.movrr size regDest regSrc1))

/-- `translate_XORI` and `translate_ORI`. -/
def logicImm (op : AluOp) : Gen Unit := do
  let regSrc1 ← getRs1 flags instr
  let regDest ← getRd flags instr
  moveUnlessSame .s64 regDest regSrc1
  feEnc64 (.aluri op .s64 regDest instr.imm)

/-- `translate_XORI`. -/
def translateXORI : Gen Unit := logicImm flags instr .xor

/-- `translate_ORI`. -/
def translateORI : Gen Unit := logicImm flags instr .or

/-- The size of the operation in `translate_ANDI`: 32 bits for an immediate without a
sign extension. -/
def andSize (imm : BitVec 64) : OpSize :=
  if (imm.setWidth 32).setWidth 64 = imm then .s32 else .s64

/-- `translate_ANDI`. -/
def translateANDI : Gen Unit := do
  let regSrc1 ← getRs1 flags instr
  let regDest ← getRd flags instr
  moveUnlessSame (andSize instr.imm) regDest regSrc1
  feEnc64 (.aluri .and (andSize instr.imm) regDest instr.imm)

/-! ## Shifts by an immediate -/

/-- The shift amount as it is masked for an operand size. -/
def maskImm (size : OpSize) (imm : BitVec 64) : BitVec 64 :=
  match size with
  | .s64 => imm &&& 0x3f#64
  | .s32 => imm &&& 0x1f#64

/-- The left shift of `translate_SLLI` and `translate_SLLIW`; small shifts between
different registers are scaled addresses. -/
def shiftLeftImm (size : OpSize) (regSrc1 regDest : FeReg) : Gen Unit :=
  let maskedImm := maskImm size instr.imm
  if regDest ≠ regSrc1 ∧ (maskedImm = 1#64 ∨ maskedImm = 2#64 ∨ maskedImm = 3#64) then
    feEnc64 (.lea size regDest ⟨none, some (1 <<< maskedImm.toNat, regSrc1), 0#64⟩)
  else do
    moveUnlessSame size regDest regSrc1
    feEnc64 (.shiftri .shl size regDest maskedImm)

/-- `translate_SLLI`. -/
def translateSLLI : Gen Unit := do
  let regSrc1 ← getRs1 flags instr
  let regDest ← getRd flags instr
  shiftLeftImm instr .s64 regSrc1 regDest

/-- `translate_SLLIW`. -/
def translateSLLIW : Gen Unit := do
  let regSrc1 ← getRs1 flags instr
  let regDest ← getRd flags instr
  shiftLeftImm instr .s32 regSrc1 regDest
  feEnc64 (.movsxr64r32 regDest regDest)

/-- `translate_SRLI` and `translate_SRAI`. -/
def shiftRightImm (op : ShiftOp) : Gen Unit := do
  let regSrc1 ← getRs1 flags instr
  let regDest ← getRd flags instr
  moveUnlessSame .s64 regDest regSrc1
  feEnc64 (.shiftri op .s64 regDest (maskImm .s64 instr.imm))

/-- `translate_SRLI`. -/
def translateSRLI : Gen Unit := shiftRightImm flags instr .shr

/-- `translate_SRAI`. -/
def translateSRAI : Gen Unit := shiftRightImm flags instr .sar

/-- `translate_SRLIW` and `translate_SRAIW`. -/
def shiftRightImmW (op : ShiftOp) : Gen Unit := do
  let regSrc1 ← getRs1 flags instr
  let regDest ← getRd flags instr
  moveUnlessSame .s32 regDest regSrc1
  feEnc64 (.shiftri op .s32 regDest (maskImm .s32 instr.imm))
  feEnc64 (.movsxr64r32 regDest regDest)

/-- `translate_SRLIW`. -/
def translateSRLIW : Gen Unit := shiftRightImmW flags instr .shr

/-- `translate_SRAIW`. -/
def translateSRAIW : Gen Unit := shiftRightImmW flags instr .sar

/-! ## Register-register operations -/

/-- The addition of `translate_ADD` and `translate_ADDW`. The result of the encoder
is dropped for the scaled address. -/
def addReg (size : OpSize) (regSrc1 regSrc2 regDest : FeReg) : Gen Unit :=
  if regSrc1 ≠ regDest ∧ regSrc2 ≠ regDest then
    Gen.emit (.lea size regDest ⟨some regSrc1, some (1, regSrc2), 0#64⟩)
  else doArithmCommutative regSrc1 regSrc2 regDest .add size

/-- `translate_ADD`. -/
def translateADD : Gen Unit := do
  let regSrc1 ← getRs1 flags instr
  let regSrc2 ← getRs2 flags instr
  let regDest ← getRd flags instr
  addReg .s64 regSrc1 regSrc2 regDest

/-- `translate_ADDW`. -/
def translateADDW : Gen Unit := do
  let regSrc1 ← getRs1 flags instr
  let regSrc2 ← getRs2 flags instr
  let regDest ← getRd flags instr
  addReg .s32 regSrc1 regSrc2 regDest
  feEnc64 (.movsxr64r32 regDest regDest)

/-- The subtraction of `translate_SUB` and `translate_SUBW`. -/
def subReg (size : OpSize) (regSrc1 regSrc2 regDest : FeReg) : Gen Unit :=
  if regDest = regSrc2 then
    if regDest = regSrc1 then feEnc64 (.alurr .xor .s32 regDest regDest)
    else do
      feEnc64 (.neg size regSrc2)
      feEnc64 (.alurr .add size regSrc2 regSrc1)
  else doArithmCommutative regSrc1 regSrc2 regDest .sub size

/-- `translate_SUB`. -/
def translateSUB : Gen Unit := do
  let regSrc1 ← getRs1 flags instr
  let regSrc2 ← getRs2 flags instr
  let regDest ← getRd flags instr
  subReg .s64 regSrc1 regSrc2 regDest

/-- `translate_SUBW`. -/
def translateSUBW : Gen Unit := do
  let regSrc1 ← getRs1 flags instr
  let regSrc2 ← getRs2 flags instr
  let regDest ← getRd flags instr
  subReg .s32 regSrc1 regSrc2 regDest
  feEnc64 (.movsxr64r32 regDest regDest)

/-- `translate_XOR`, `translate_OR` and `translate_AND`. -/
def logicReg (op : AluOp) : Gen Unit := do
  let regSrc1 ← getRs1 flags instr
  let regSrc2 ← getRs2 flags instr
  let regDest ← getRd flags instr
  doArithmCommutative regSrc1 regSrc2 regDest op .s64

/-- `translate_XOR`. -/
def translateXOR : Gen Unit := logicReg flags instr .xor

/-- `translate_OR`. -/
def translateOR : Gen Unit := logicReg flags instr .or

/-- `translate_AND`. -/
def translateAND : Gen Unit := logicReg flags instr .and

/-- `translate_SLT` and `translate_SLTU`. -/
def setReg (cond : Cond) : Gen Unit := do
  let regSrc1 ← getRs1 flags instr
  let regSrc2 ← getRs2 flags instr
  let regDest ← getRd flags instr
  feEnc64 (.cmp64rr regSrc1 regSrc2)
  feEnc64 (.set8r cond regDest)
  feEnc64 (.movzxr32r8 regDest regDest)

/-- `translate_SLT`. -/
def translateSLT : Gen Unit := setReg flags instr .l

/-- `translate_SLTU`. -/
def translateSLTU : Gen Unit := setReg flags instr .c

/-! ## Shifts by a register -/

/-- Where `rd` lies when it shares `CX` with the shift amount: in a replacement that
does not hold `rs1`. -/
def relocateDest (regSrc1 : FeReg) : Gen FeReg :=
  if regSrc1 = .ax then do
    invalidateReplacement 1
    loadIntoSpecific instr.regDest 1 true
  else do
    invalidateReplacement 0
    loadIntoSpecific instr.regDest 0 true

/-- A register for the result other than the one that holds the shift amount. -/
def destBesides (regSrc1 regSrc2 regDest : FeReg) : Gen FeReg :=
  if regDest = regSrc2 then relocateDest instr regSrc1 else pure regDest

/-- The register the shift works on, with `rs1` moved into it. -/
def shiftDest (size : OpSize) (regSrc1 regSrc2 regDest : FeReg) : Gen FeReg :=
  if regDest ≠ regSrc1 then do
    let regDest ← destBesides instr regSrc1 regSrc2 regDest
    feEnc64 (.movrr size regDest regSrc1)
    return regDest
  else return regDest

/-- `translate_SLL`, `translate_SRL` and `translate_SRA`. -/
def shiftReg (op : ShiftOp) : Gen Unit := do
  let regSrc2 ← getRs2Into flags instr 2
  let regSrc1 ← getRs1 flags instr
  let regDest ← getRd flags instr
  let regDest ← shiftDest instr .s64 regSrc1 regSrc2 regDest
  feEnc64 (.shiftrr op .s64 regDest regSrc2)

/-- `translate_SLL`. -/
def translateSLL : Gen Unit := shiftReg flags instr .shl

/-- `translate_SRL`. -/
def translateSRL : Gen Unit := shiftReg flags instr .shr

/-- `translate_SRA`. -/
def translateSRA : Gen Unit := shiftReg flags instr .sar

/-- `translate_SLLW`, `translate_SRLW` and `translate_SRAW`. -/
def shiftRegW (op : ShiftOp) : Gen Unit := do
  let regSrc2 ← getRs2Into flags instr 2
  let regSrc1 ← getRs1 flags instr
  let regDest ← getRd flags instr
  let regDest ← shiftDest instr .s32 regSrc1 regSrc2 regDest
  feEnc64 (.shiftrr op .s32 regDest regSrc2)
  feEnc64 (.movsxr64r32 regDest regDest)

/-- `translate_SLLW`. -/
def translateSLLW : Gen Unit := shiftRegW flags instr .shl

/-- `translate_SRLW`. -/
def translateSRLW : Gen Unit := shiftRegW flags instr .shr

/-- `translate_SRAW`. -/
def translateSRAW : Gen Unit := shiftRegW flags instr .sar

/-! ## Loads and stores -/

/-- A load into `rd` by the given instruction. -/
def translateLoad (load : FeReg → MemOp → FeInstr) : Gen Unit := do
  let regSrc1 ← getRs1 flags instr
  let regDest ← getRd flags instr
  feEnc64 (load regDest (memAt regSrc1 instr.imm))

/-- `translate_LB`. -/
def translateLB : Gen Unit := translateLoad flags instr (.movsxm .m8)

/-- `translate_LH`. -/
def translateLH : Gen Unit := translateLoad flags instr (.movsxm .m16)

/-- `translate_LW`. -/
def translateLW : Gen Unit := translateLoad flags instr (.movsxm .m32)

/-- `translate_LBU`. -/
def translateLBU : Gen Unit := translateLoad flags instr (.movrm .m8)

/-- `translate_LHU`. -/
def translateLHU : Gen Unit := translateLoad flags instr (.movrm .m16)

/-- `translate_LWU`. -/
def translateLWU : Gen Unit := translateLoad flags instr (.movrm .m32)

/-- `translate_LD`. -/
def translateLD : Gen Unit := translateLoad flags instr (.movrm .m64)

/-- A store of `rs2` of the given size. -/
def translateStore (size : MemSize) : Gen Unit := do
  let regSrc1 ← getRs1 flags instr
  let regSrc2 ← getRs2 flags instr
  feEnc64 (.movmr size (memAt regSrc1 instr.imm) regSrc2)

/-- `translate_SB`. -/
def translateSB : Gen Unit := translateStore flags instr .m8

/-- `translate_SH`. -/
def translateSH : Gen Unit := translateStore flags instr .m16

/-- `translate_SW`. -/
def translateSW : Gen Unit := translateStore flags instr .m32

/-- `translate_SD`. -/
def translateSD : Gen Unit := translateStore flags instr .m64

end RiaJit.Translate
