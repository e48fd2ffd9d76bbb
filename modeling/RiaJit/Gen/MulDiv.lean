import RiaJit.Gen.Arithmetic
import RiaJit.Gen.LocalJumps
import RiaJit.Guest.Rv64m

/-!
# Multiplication and division

The emitters of `translate_m_ext.c` for upper halves of products, quotients and
remainders. The host's instructions take `AX` and `DX` as implicit operands, so the
sources are forced into `AX` and `CX` before the destination is allocated.
-/

set_option autoImplicit false

namespace RiaJit.Translate

open EmitLogic X86

variable (env : Env) (instr : RiscInstr)

/-! ## Upper halves of products -/

/-- The operands of the multiplications: `rs1` in `AX`, `rs2` in `CX`. -/
def mulOperands (flags : Flags) : Gen (FeReg × FeReg) := do
  let _ ← getRs1Into flags instr 0
  let regSrc2 ← getRs2Into flags instr 2
  invalidateReplacement 1
  invalidateReplacement 0
  let regDest ← getRd flags instr
  return (regSrc2, regDest)

/-- A result in `AX` or `DX` is moved to `rd` unless it lies there. -/
def moveResult (regDest result : FeReg) : Gen Unit :=
  onlyIf (regDest ≠ result) (feEnc64 (.movrr .s64 regDest result))

/-- `translate_MULH` and `translate_MULHU`. -/
def mulUpper (flags : Flags) (mul : FeReg → FeInstr) : Gen Unit := do
  let (regSrc2, regDest) ← mulOperands instr flags
  feEnc64 (mul regSrc2)
  moveResult regDest .dx

/-- `translate_MULH`. -/
def translateMULH (flags : Flags) : Gen Unit := mulUpper instr flags .imul64r

/-- `translate_MULHU`. -/
def translateMULHU (flags : Flags) : Gen Unit := mulUpper instr flags .mul64r

/-- `rs1` is added to the upper half of the product; a register that is not mapped was
overwritten by the product, so its slot is read. -/
def addRs1 : Gen Unit :=
  match gpMap instr.regSrc1 with
  | none => feEnc64 (.add64rmCell .dx (.gp instr.regSrc1))
  | some mapped => feEnc64 (.alurr .add .s64 .dx mapped)

/-- The product of `translate_MULHSU` and the test of the sign of `rs2`. -/
def mulAndTest (flags : Flags) : Gen FeReg := do
  let (regSrc2, regDest) ← mulOperands instr flags
  feEnc64 (.imul64r regSrc2)
  feEnc64 (.test64rr regSrc2 regSrc2)
  return regDest

/-- `translate_MULHSU`. -/
def translateMULHSU : Emit Unit := do
  let regDest ← Emit.lift (mulAndTest instr env.flags)
  (do
    let jmpNoSignBit ← Emit.encDummy env (some .ns) false
    Emit.lift (addRs1 instr)
    Emit.replaceJumpHere env jmpNoSignBit (some .ns) false)
  Emit.lift (moveResult regDest .dx)

/-! ## Quotients and remainders -/

/-- `FE_TEST64rr` and `FE_TEST32rr` of a register with itself. -/
def testZero (size : OpSize) (reg : FeReg) : FeInstr :=
  match size with
  | .s64 => .test64rr reg reg
  | .s32 => .test32rr reg reg

/-- The operands of the divisions, `rs2` in `CX` and `rs1` in `AX`, and the test of the divisor. -/
def divOperands (flags : Flags) (size : OpSize) : Gen (FeReg × FeReg × FeReg) := do
  let regSrc2 ← getRs2Into flags instr 2
  let regSrc1 ← getRs1Into flags instr 0
  invalidateReplacement 1
  invalidateReplacement 0
  let regDest ← getRd flags instr
  feEnc64 (testZero size regSrc2)
  return (regSrc1, regSrc2, regDest)

/-- The register that a part of the result is left in. -/
def DivPart.reg : DivPart → FeReg
  | .quotient => .ax
  | .remainder => .dx

/-- The extension of the dividend and the division. -/
def divideInstr (size : OpSize) (signed : Bool) (regSrc2 : FeReg) : Gen Unit :=
  if signed then do
    feEnc64 (.cSep size)
    feEnc64 (.idivr size regSrc2)
  else do
    feEnc64 (.alurr .xor .s32 .dx .dx)
    feEnc64 (.divr size regSrc2)

/-- The division where the divisor is not zero; a 32-bit result is sign extended into `rd`. -/
def divideNonzero (size : OpSize) (signed : Bool) (part : DivPart) (regSrc2 regDest : FeReg) :
    Gen Unit := do
  divideInstr size signed regSrc2
  match size with
  | .s64 => pure ()
  | .s32 => feEnc64 (.movsxr64r32 regDest (DivPart.reg part))

/-- The result for a divisor of zero. -/
def divideZero (size : OpSize) (part : DivPart) (regSrc1 regDest : FeReg) : Gen Unit :=
  match size, part with
  | .s64, .quotient => feEnc64 (.mov64ri .ax (-1#64))
  | .s64, .remainder => feEnc64 (.movrr .s64 .dx regSrc1)
  | .s32, .quotient => feEnc64 (.mov64ri regDest (-1#64))
  | .s32, .remainder => feEnc64 (.movsxr64r32 regDest regSrc1)

/-- The end of a division: a 64-bit result is moved to `rd`. -/
def divideEnd (size : OpSize) (part : DivPart) (regDest : FeReg) : Gen Unit :=
  match size with
  | .s64 => moveResult regDest (DivPart.reg part)
  | .s32 => pure ()

/-- The body that the divisions share. -/
def translateDivision (size : OpSize) (signed : Bool) (part : DivPart) : Emit Unit := do
  let (regSrc1, regSrc2, regDest) ← Emit.lift (divOperands instr env.flags size)
  (do
    let jmpDivZero ← Emit.encDummy env (some .z) false
    Emit.lift (divideNonzero size signed part regSrc2 regDest)
    let jmpNotDivZero ← Emit.encDummy env none false
    Emit.replaceJumpHere env jmpDivZero (some .z) false
    Emit.lift (divideZero size part regSrc1 regDest)
    Emit.replaceJumpHere env jmpNotDivZero none false)
  Emit.lift (divideEnd size part regDest)

/-- `translate_DIV`. -/
def translateDIV : Emit Unit := translateDivision env instr .s64 true .quotient

/-- `translate_DIVU`. -/
def translateDIVU : Emit Unit := translateDivision env instr .s64 false .quotient

/-- `translate_REM`. -/
def translateREM : Emit Unit := translateDivision env instr .s64 true .remainder

/-- `translate_REMU`. -/
def translateREMU : Emit Unit := translateDivision env instr .s64 false .remainder

/-- `translate_DIVW`. -/
def translateDIVW : Emit Unit := translateDivision env instr .s32 true .quotient

/-- `translate_DIVUW`. -/
def translateDIVUW : Emit Unit := translateDivision env instr .s32 false .quotient

/-- `translate_REMW`. -/
def translateREMW : Emit Unit := translateDivision env instr .s32 true .remainder

/-- `translate_REMUW`. -/
def translateREMUW : Emit Unit := translateDivision env instr .s32 false .remainder

/-- The emitters of `dispatch_instr` for these instructions. -/
def mulDivEmitter : RiscMnem → Option (Env → RiscInstr → Emit Unit)
  | .mulh => some fun env instr => Emit.lift (translateMULH instr env.flags)
  | .mulhsu => some translateMULHSU
  | .mulhu => some fun env instr => Emit.lift (translateMULHU instr env.flags)
  | .div => some translateDIV
  | .divu => some translateDIVU
  | .rem => some translateREM
  | .remu => some translateREMU
  | .divw => some translateDIVW
  | .divuw => some translateDIVUW
  | .remw => some translateREMW
  | .remuw => some translateREMUW
  | _ => none

end RiaJit.Translate
