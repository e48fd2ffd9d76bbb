import RiaJit.Gen.FpRound
import RiaJit.Guest.Rv64fd

/-!
# Conversions

The emitters of `translate_f_ext.c` and `translate_d_ext.c` for `FCVT` between numbers and
integers. A conversion to an integer needs no rounding mode of its own where it truncates. The
unsigned forms are put together from signed ones: negative numbers are sorted out first, and
what is `2^63` or more goes through a signed conversion with a bias or at half of its size.
-/

set_option autoImplicit false

namespace RiaJit.Translate

open EmitLogic ForwardJumps X86

/-- `RTZ`. -/
def rtz : BitVec 32 := 1#32

section Pieces

open Patched

variable (form : FpForm)

/-- The result is zero so far, and a jump past the conversion is due if `FIRST_FP_REG` is
negative. -/
def sortNegative (regDest : FeReg) : List FpInstr :=
  [.pxorrr secondFpReg secondFpReg, .sse (.gp (.alurr .xor .s64 regDest regDest)),
    .comisrr false form secondFpReg firstFpReg]

/-- For a single the second replacement is cleared again. -/
def clearAgain : FpForm → List FpInstr
  | .s => [.pxorrr secondFpReg secondFpReg]
  | .d => []

/-- The code of `FCVT.WU` behind the requests for registers. -/
def toUnsignedWord (truncate : Bool) (regDest : FeReg) (regSrc1 : XmmReg) :
    Patched FpInstr Unit := do
  putAll (sortNegative form regDest)
  let jmpBufZero ← here
  put (.jump (some .a) none)
  putAll (clearAgain form)
  put (.cvt2si truncate form .s64 regDest regSrc1)
  patch jmpBufZero fun n => .jump (some .a) (some n)

/-- `2^63` in the second replacement. -/
def loadBias (scratch : FeReg) : FpForm → List FpInstr
  | .s => [.mov32ri scratch 1593835520#32, .movToXmm .s secondFpReg scratch]
  | .d => [.sse (.gp (.mov64ri scratch 0x43E0000000000000#64)), .movToXmm .d secondFpReg scratch]

/-- The code of `FCVT.LU` behind the requests for registers. -/
def toUnsignedLong (truncate : Bool) (regDest scratch : FeReg) (regSrc1 : XmmReg) :
    Patched FpInstr Unit := do
  putAll (sortNegative form regDest)
  let jmpBufZero ← here
  put (.jump (some .a) none)
  putAll (loadBias scratch form)
  put (.comisrr false form regSrc1 secondFpReg)
  let jmpBufCOM ← here
  put (.jump (some .nc) none)
  put (.cvt2si truncate form .s64 regDest regSrc1)
  let jmpBufEnd ← here
  put (.jump none none)
  patch jmpBufCOM fun n => .jump (some .nc) (some n)
  put (.sse (.arithrr .sub form regSrc1 secondFpReg))
  put (.cvt2si truncate form .s64 regDest regSrc1)
  put (.btc64ri regDest 63)
  -- set jumps
  patch jmpBufEnd fun n => .jump none (some n)
  patch jmpBufZero fun n => .jump (some .a) (some n)

/-- For a single the first replacement is cleared before the halved integer is converted. -/
def clearFirst : FpForm → List FpInstr
  | .s => [.sse (.xorrr .s firstFpReg firstFpReg)]
  | .d => []

/-- The code of `FCVT.S.LU` and `FCVT.D.LU` behind the requests for registers, with `rs1` in both
`FIRST_REG` and `SECOND_REG` and in the register `src`. -/
def ofUnsignedLong (regDest : XmmReg) (src : FeReg) : Patched FpInstr Unit := do
  put (.sse (.xorrr form regDest regDest))
  put (.sse (.gp (.test64rr src src)))
  let jmpBufSign ← here
  put (.jump (some .s) none)
  put (.cvtsi2 form .s64 regDest src)
  let jmpBufEnd ← here
  put (.jump none none)
  patch jmpBufSign fun n => .jump (some .s) (some n)
  -- from `2 ^ 63` on: half the source, its last bit kept sticky, is converted and doubled
  put (.and32ri .ax 1#32)
  putAll (clearFirst form)
  put (.sse (.gp (.shiftri .shr .s64 .dx 1#64)))
  put (.sse (.gp (.alurr .or .s64 .dx .ax)))
  put (.cvtsi2 form .s64 regDest .dx)
  put (.sse (.arithrr .add form regDest regDest))
  patch jmpBufEnd fun n => .jump none (some n)

end Pieces

/-! ## Emitters -/

section Emitters

variable (form : FpForm) (flags : Flags) (m : FpMapping) (instr : RiscInstr)

/-- The frame of the conversions to integers, which choose their instruction by the mode. -/
def withCvtRound (body : Bool → FpCode Unit) : FpCode Unit :=
  bracketIf (instr.roundingMode ≠ dyn ∧ instr.roundingMode ≠ rtz) flags instr.roundingMode
    (body (decide (instr.roundingMode = rtz)))

/-- `translate_FCVTWS` and `translate_FCVTWD` between the two helpers. -/
def wordBody (truncate : Bool) : FpCode Unit := do
  let regSrc1 ← getFpReg flags m instr.regSrc1 firstFpReg
  let regDest ← getRd flags instr
  Gen.emit (.cvt2si truncate form .s32 regDest regSrc1)
  Gen.emit (.sse (.gp (.movsxr64r32 regDest regDest)))

/-- `translate_FCVTWUS` and `translate_FCVTWUD` between the two helpers. -/
def unsignedWordBody (truncate : Bool) : FpCode Unit := do
  let regSrc1 ← getFpReg flags m instr.regSrc1 firstFpReg
  let regDest ← getRd flags instr
  emitPatched (toUnsignedWord form truncate regDest regSrc1)

/-- `translate_FCVTLS` and `translate_FCVTLD` between the two helpers. -/
def longBody (truncate : Bool) : FpCode Unit := do
  let regSrc1 ← getFpReg flags m instr.regSrc1 firstFpReg
  let regDest ← getRd flags instr
  Gen.emit (.cvt2si truncate form .s64 regDest regSrc1)

/-- `translate_FCVTLUS` and `translate_FCVTLUD` between the two helpers. -/
def unsignedLongBody (truncate : Bool) : FpCode Unit := do
  let regSrc1 ← getFpReg flags m instr.regSrc1 firstFpReg
  let regDest ← getRd flags instr
  let scratch ← (invalidateOldest : Gen FeReg)
  emitPatched (toUnsignedLong form truncate regDest scratch regSrc1)

/-- The frame of the conversions of integers, and of `FCVT.S.D`. -/
def withFpRound (body : FpCode Unit) : FpCode Unit :=
  bracketIf (instr.roundingMode ≠ dyn) flags instr.roundingMode body

/-- `FCVT.S.W`, `FCVT.S.L` and their forms for doubles between the two helpers. -/
def ofSignedBody (size : OpSize) : FpCode Unit := do
  let regSrc1 ← getRs1 flags instr
  let regDest ← getFpRegNoLoad flags m instr.regDest firstFpReg
  Gen.emit (.sse (.xorrr form regDest regDest))
  Gen.emit (.cvtsi2 form size regDest regSrc1)
  setFpReg flags m instr.regDest regDest

/-- `translate_FCVTSWU` and `translate_FCVTDWU` between the two helpers. -/
def ofUnsignedWordBody : FpCode Unit := do
  let regSrc1 ← getRs1 flags instr
  let scratch ← (invalidateOldest : Gen FeReg)
  let regDest ← getFpRegNoLoad flags m instr.regDest firstFpReg
  Gen.emit (.sse (.gp (.movrr .s32 scratch regSrc1)))
  Gen.emit (.sse (.xorrr form regDest regDest))
  Gen.emit (.cvtsi2 form .s64 regDest scratch)
  setFpReg flags m instr.regDest regDest

/-- `rs1` is copied to `FIRST_REG` and `SECOND_REG`, of which it may be in one. -/
def copyTwice (regSrc1 : FeReg) : FpCode Unit :=
  if regSrc1 = .ax then do
    invalidateReplacement 1
    Gen.emit (.sse (.gp (.movrr .s64 .dx regSrc1)))
    invalidateReplacement 0
    Gen.emit (.sse (.gp (.movrr .s64 .ax .dx)))
  else if regSrc1 = .dx then do
    invalidateReplacement 0
    Gen.emit (.sse (.gp (.movrr .s64 .ax regSrc1)))
    invalidateReplacement 1
    Gen.emit (.sse (.gp (.movrr .s64 .dx .ax)))
  else do
    invalidateReplacement 0
    invalidateReplacement 1
    Gen.emit (.sse (.gp (.movrr .s64 .ax regSrc1)))
    Gen.emit (.sse (.gp (.movrr .s64 .dx regSrc1)))

/-- A single tests and converts `rs1` itself, a double its first copy. -/
def testedSource (regSrc1 : FeReg) : FpForm → FeReg
  | .s => regSrc1
  | .d => .ax

/-- `translate_FCVTSLU` and `translate_FCVTDLU` between the two helpers. -/
def ofUnsignedLongBody : FpCode Unit := do
  let regSrc1 ← getRs1 flags instr
  copyTwice regSrc1
  let regDest ← getFpRegNoLoad flags m instr.regDest firstFpReg
  emitPatched (ofUnsignedLong form regDest (testedSource regSrc1 form))
  setFpReg flags m instr.regDest regDest

/-- `translate_FCVTSD` between the two helpers. -/
def narrowBody : FpCode Unit := do
  let regSrc1 ← getFpReg flags m instr.regSrc1 firstFpReg
  let regDest ← getFpRegNoLoad flags m instr.regDest firstFpReg
  Gen.emit (.cvtsd2ssrr regDest regSrc1)
  setFpReg flags m instr.regDest regDest

/-- The code between the two helpers of a conversion to an integer. -/
def toIntBody : IntType → Bool → FpCode Unit
  | .w => wordBody form flags m instr
  | .wu => unsignedWordBody form flags m instr
  | .l => longBody form flags m instr
  | .lu => unsignedLongBody form flags m instr

/-- The code between the two helpers of a conversion of an integer. -/
def ofIntBody : IntType → FpCode Unit
  | .w => ofSignedBody form flags m instr .s32
  | .wu => ofUnsignedWordBody form flags m instr
  | .l => ofSignedBody form flags m instr .s64
  | .lu => ofUnsignedLongBody form flags m instr

end Emitters

/-- A conversion to an integer. -/
def translateToInt (t : IntType) (form : FpForm) (flags : Flags) (m : FpMapping)
    (instr : RiscInstr) : FpCode Unit :=
  withCvtRound flags instr (toIntBody form flags m instr t)

/-- A conversion of an integer. -/
def translateOfInt (t : IntType) (form : FpForm) (flags : Flags) (m : FpMapping)
    (instr : RiscInstr) : FpCode Unit :=
  withFpRound flags instr (ofIntBody form flags m instr t)

/-- `translate_FCVTWS`: a single to a signed word. -/
def translateFCVTWS := translateToInt .w .s

/-- `translate_FCVTWUS`: a single to an unsigned word. -/
def translateFCVTWUS := translateToInt .wu .s

/-- `translate_FCVTLS`: a single to a signed doubleword. -/
def translateFCVTLS := translateToInt .l .s

/-- `translate_FCVTLUS`: a single to an unsigned doubleword. -/
def translateFCVTLUS := translateToInt .lu .s

/-- `translate_FCVTWD`: a double to a signed word. -/
def translateFCVTWD := translateToInt .w .d

/-- `translate_FCVTWUD`: a double to an unsigned word. -/
def translateFCVTWUD := translateToInt .wu .d

/-- `translate_FCVTLD`: a double to a signed doubleword. -/
def translateFCVTLD := translateToInt .l .d

/-- `translate_FCVTLUD`: a double to an unsigned doubleword. -/
def translateFCVTLUD := translateToInt .lu .d

/-- `translate_FCVTSW`: a signed word to a single. -/
def translateFCVTSW := translateOfInt .w .s

/-- `translate_FCVTSWU`: an unsigned word to a single. -/
def translateFCVTSWU := translateOfInt .wu .s

/-- `translate_FCVTSL`: a signed doubleword to a single. -/
def translateFCVTSL := translateOfInt .l .s

/-- `translate_FCVTSLU`: an unsigned doubleword to a single. -/
def translateFCVTSLU := translateOfInt .lu .s

/-- `translate_FCVTDW`: a signed word to a double. -/
def translateFCVTDW := translateOfInt .w .d

/-- `translate_FCVTDWU`: an unsigned word to a double. -/
def translateFCVTDWU := translateOfInt .wu .d

/-- `translate_FCVTDL`: a signed doubleword to a double. -/
def translateFCVTDL := translateOfInt .l .d

/-- `translate_FCVTDLU`: an unsigned doubleword to a double. -/
def translateFCVTDLU := translateOfInt .lu .d

/-- `translate_FCVTSD`: a double to a single. -/
def translateFCVTSD (flags : Flags) (m : FpMapping) (instr : RiscInstr) : FpCode Unit :=
  withFpRound flags instr (narrowBody flags m instr)

/-! ## The instructions -/

/-- What is converted to what. -/
inductive FpConversion where
  | toInt (t : IntType) (form : FpForm)
  | ofInt (t : IntType) (form : FpForm)
  | narrow
  deriving DecidableEq, Repr

/-- The instructions of this part. -/
def fpConversion : RiscMnem → Option FpConversion
  | .fcvtws => some (.toInt .w .s)
  | .fcvtwus => some (.toInt .wu .s)
  | .fcvtls => some (.toInt .l .s)
  | .fcvtlus => some (.toInt .lu .s)
  | .fcvtwd => some (.toInt .w .d)
  | .fcvtwud => some (.toInt .wu .d)
  | .fcvtld => some (.toInt .l .d)
  | .fcvtlud => some (.toInt .lu .d)
  | .fcvtsw => some (.ofInt .w .s)
  | .fcvtswu => some (.ofInt .wu .s)
  | .fcvtsl => some (.ofInt .l .s)
  | .fcvtslu => some (.ofInt .lu .s)
  | .fcvtdw => some (.ofInt .w .d)
  | .fcvtdwu => some (.ofInt .wu .d)
  | .fcvtdl => some (.ofInt .l .d)
  | .fcvtdlu => some (.ofInt .lu .d)
  | .fcvtsd => some .narrow
  | _ => none

/-- The cases of `dispatch_instr` for these instructions. -/
def fpConvertEmitter : RiscMnem → Option (Flags → FpMapping → RiscInstr → FpCode Unit)
  | .fcvtws => some translateFCVTWS
  | .fcvtwus => some translateFCVTWUS
  | .fcvtls => some translateFCVTLS
  | .fcvtlus => some translateFCVTLUS
  | .fcvtwd => some translateFCVTWD
  | .fcvtwud => some translateFCVTWUD
  | .fcvtld => some translateFCVTLD
  | .fcvtlud => some translateFCVTLUD
  | .fcvtsw => some translateFCVTSW
  | .fcvtswu => some translateFCVTSWU
  | .fcvtsl => some translateFCVTSL
  | .fcvtslu => some translateFCVTSLU
  | .fcvtdw => some translateFCVTDW
  | .fcvtdwu => some translateFCVTDWU
  | .fcvtdl => some translateFCVTDL
  | .fcvtdlu => some translateFCVTDLU
  | .fcvtsd => some translateFCVTSD
  | _ => none

/-- The emitter of each conversion. -/
def conversionEmitter : FpConversion → Flags → FpMapping → RiscInstr → FpCode Unit
  | .toInt t form => translateToInt t form
  | .ofInt t form => translateOfInt t form
  | .narrow => translateFCVTSD

theorem fpConvertEmitter_eq (mnem : RiscMnem) :
    fpConvertEmitter mnem = (fpConversion mnem).map conversionEmitter := by
  cases mnem <;> rfl

end RiaJit.Translate
