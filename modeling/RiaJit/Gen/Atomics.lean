import RiaJit.Gen.Arithmetic
import RiaJit.Gen.Scratch
import RiaJit.Guest.Rv64a

/-!
# Atomic memory operations

`translate_a_ext.c`, and the products of `translate_m_ext.c` that leave no upper half. The old
value of an atomic operation is kept in the stack pointer, which lies in the scratch slot in the
meantime.
-/

set_option autoImplicit false

namespace RiaJit.Translate

open EmitLogic X86

variable (flags : Flags) (instr : RiscInstr)

/-! ## Products -/

/-- `doArithmCommutative` with `FE_IMUL64rr` and `FE_IMUL32rr`. -/
def doMultiply (size : OpSize) (regSrc1 regSrc2 regDest : FeReg) : Gen Unit :=
  if regDest = regSrc1 then feEnc64 (.imulrr size regSrc1 regSrc2)
  else if regDest = regSrc2 then feEnc64 (.imulrr size regSrc2 regSrc1)
  else do
    feEnc64 (.movrr .s64 regDest regSrc1)
    feEnc64 (.imulrr size regDest regSrc2)

/-- `translate_MUL`. -/
def translateMUL : Gen Unit := do
  let regSrc1 ← getRs1 flags instr
  let regSrc2 ← getRs2 flags instr
  let regDest ← getRd flags instr
  doMultiply .s64 regSrc1 regSrc2 regDest

/-- `translate_MULW`. -/
def translateMULW : Gen Unit := do
  let regSrc1 ← getRs1 flags instr
  let regSrc2 ← getRs2 flags instr
  let regDest ← getRd flags instr
  doMultiply .s32 regSrc1 regSrc2 regDest
  feEnc64 (.movsxr64r32 regDest regDest)

/-! ## Load-reserved and store-conditional -/

/-- `translate_LRW`. -/
def translateLRW : Gen Unit := do
  let regSrc1 ← getRs1 flags instr
  let regDest ← getRd flags instr
  feEnc64 (.movsxm .m32 regDest (memAt regSrc1 0#64))

/-- `translate_LRD`. -/
def translateLRD : Gen Unit := do
  let regSrc1 ← getRs1 flags instr
  let regDest ← getRd flags instr
  feEnc64 (.movrm .m64 regDest (memAt regSrc1 0#64))

/-- `translate_SCW` and `translate_SCD`, which always report success. -/
def storeAndSucceed (size : MemSize) : Gen Unit := do
  let regSrc1 ← getRs1 flags instr
  let regSrc2 ← getRs2 flags instr
  let regDest ← getRd flags instr
  feEnc64 (.movmr size (memAt regSrc1 0#64) regSrc2)
  feEnc64 (.mov64ri regDest 0#64)

/-- `translate_SCW`. -/
def translateSCW : Gen Unit := storeAndSucceed flags instr .m32

/-- `translate_SCD`. -/
def translateSCD : Gen Unit := storeAndSucceed flags instr .m64

/-! ## Read, modify and write -/

/-- `SCRATCH_REG`. -/
def scratchReg : FeReg := .sp

/-- The operand size of a comparison or a move of values of a memory width. -/
def operandSize : MemSize → OpSize
  | .m64 => .s64
  | _ => .s32

/-- The old value is moved to `rd`, sign extended. -/
def moveOld (size : MemSize) (regDest : FeReg) : Gen Unit :=
  match size with
  | .m64 => feEnc64 (.movrr .s64 regDest scratchReg)
  | _ => feEnc64 (.movsxr64r32 regDest scratchReg)

/-- The old value is moved to `rd` if that is not `x0`. -/
def deliverOld (size : MemSize) (regDest : FeReg) : Gen Unit :=
  onlyIf (instr.regDest ≠ x0) (moveOld size regDest)

/-- The body of the operations that modify memory in one instruction. -/
def translateAmo (size : MemSize) (modify : MemOp → FeReg → FeInstr) : Gen Unit := do
  let regSrc1 ← getRs1 flags instr
  let regSrc2 ← getRs2 flags instr
  let regDest ← getRd flags instr
  saveScratchReg scratchReg
  feEnc64 (.movrm size scratchReg (memAt regSrc1 0#64))
  feEnc64 (modify (memAt regSrc1 0#64) regSrc2)
  deliverOld instr size regDest
  loadScratchReg scratchReg

/-- `translate_AMOSWAPW`. -/
def translateAMOSWAPW : Gen Unit := translateAmo flags instr .m32 (.movmr .m32)

/-- `translate_AMOADDW`. -/
def translateAMOADDW : Gen Unit := translateAmo flags instr .m32 (.alumr .add .m32)

/-- `translate_AMOXORW`. -/
def translateAMOXORW : Gen Unit := translateAmo flags instr .m32 (.alumr .xor .m32)

/-- `translate_AMOANDW`. -/
def translateAMOANDW : Gen Unit := translateAmo flags instr .m32 (.alumr .and .m32)

/-- `translate_AMOORW`. -/
def translateAMOORW : Gen Unit := translateAmo flags instr .m32 (.alumr .or .m32)

/-- `translate_AMOSWAPD`. -/
def translateAMOSWAPD : Gen Unit := translateAmo flags instr .m64 (.movmr .m64)

/-- `translate_AMOADDD`. -/
def translateAMOADDD : Gen Unit := translateAmo flags instr .m64 (.alumr .add .m64)

/-- `translate_AMOXORD`. -/
def translateAMOXORD : Gen Unit := translateAmo flags instr .m64 (.alumr .xor .m64)

/-- `translate_AMOANDD`. -/
def translateAMOANDD : Gen Unit := translateAmo flags instr .m64 (.alumr .and .m64)

/-- `translate_AMOORD`. -/
def translateAMOORD : Gen Unit := translateAmo flags instr .m64 (.alumr .or .m64)

/-- `FE_CMP64rr` and `FE_CMP32rr`. -/
def compareRegs (size : MemSize) (a b : FeReg) : FeInstr :=
  match size with
  | .m64 => .cmp64rr a b
  | _ => .cmp32rr a b

/-- The body of the minima and maxima: `rs2` is forced into `SECOND_REG`, which the old value
replaces where the condition holds. -/
def translateAmoSelect (size : MemSize) (cond : Cond) : Gen Unit := do
  let regSrc1 ← getRs1 flags instr
  let regSrc2 ← getRs2Into flags instr 1
  let regDest ← getRd flags instr
  saveScratchReg scratchReg
  feEnc64 (.movrm size scratchReg (memAt regSrc1 0#64))
  feEnc64 (compareRegs size scratchReg regSrc2)
  onlyIf (regDest ≠ regSrc2) (invalidateReplacement 1)
  feEnc64 (.cmovrr cond (operandSize size) .dx scratchReg)
  feEnc64 (.movmr size (memAt regSrc1 0#64) .dx)
  deliverOld instr size regDest
  loadScratchReg scratchReg

/-- `translate_AMOMINW`. -/
def translateAMOMINW : Gen Unit := translateAmoSelect flags instr .m32 .l

/-- `translate_AMOMAXW`. -/
def translateAMOMAXW : Gen Unit := translateAmoSelect flags instr .m32 .g

/-- `translate_AMOMINUW`. -/
def translateAMOMINUW : Gen Unit := translateAmoSelect flags instr .m32 .c

/-- `translate_AMOMAXUW`. -/
def translateAMOMAXUW : Gen Unit := translateAmoSelect flags instr .m32 .a

/-- `translate_AMOMIND`. -/
def translateAMOMIND : Gen Unit := translateAmoSelect flags instr .m64 .l

/-- `translate_AMOMAXD`. -/
def translateAMOMAXD : Gen Unit := translateAmoSelect flags instr .m64 .g

/-- `translate_AMOMINUD`. -/
def translateAMOMINUD : Gen Unit := translateAmoSelect flags instr .m64 .c

/-- `translate_AMOMAXUD`. -/
def translateAMOMAXUD : Gen Unit := translateAmoSelect flags instr .m64 .a

/-- The emitters of `dispatch_instr` for these instructions. -/
def atomicEmitter : RiscMnem → Option (Flags → RiscInstr → Gen Unit)
  | .mul => some translateMUL
  | .mulw => some translateMULW
  | .lrw => some translateLRW
  | .scw => some translateSCW
  | .amoswapw => some translateAMOSWAPW
  | .amoaddw => some translateAMOADDW
  | .amoxorw => some translateAMOXORW
  | .amoandw => some translateAMOANDW
  | .amoorw => some translateAMOORW
  | .amominw => some translateAMOMINW
  | .amomaxw => some translateAMOMAXW
  | .amominuw => some translateAMOMINUW
  | .amomaxuw => some translateAMOMAXUW
  | .lrd => some translateLRD
  | .scd => some translateSCD
  | .amoswapd => some translateAMOSWAPD
  | .amoaddd => some translateAMOADDD
  | .amoxord => some translateAMOXORD
  | .amoandd => some translateAMOANDD
  | .amoord => some translateAMOORD
  | .amomind => some translateAMOMIND
  | .amomaxd => some translateAMOMAXD
  | .amominud => some translateAMOMINUD
  | .amomaxud => some translateAMOMAXUD
  | _ => none

end RiaJit.Translate
