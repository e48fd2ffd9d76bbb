import RiaJit.Gen.RegisterInfo
import RiaJit.Runtime.ManualCsrr
import RiaJit.X86.Sse

/-!
# Floating-point arithmetic

The emitters of `translate_f_ext.c` and `translate_d_ext.c` for sums, products, quotients, roots
and the fused forms, as they are without `AVX_SUPPORT`, with their helpers in `util/util.h`.
Where the two files differ only in the width of the scalars, the width is a parameter.
-/

set_option autoImplicit false

namespace RiaJit.Translate

open EmitLogic X86 RiaJit.Runtime

/-! ## The static mapping -/

/-- `FIRST_FP_REG`. -/
def firstFpReg : XmmReg := 0

/-- `SECOND_FP_REG`. -/
def secondFpReg : XmmReg := 1

/-- `fp_map` where `fp_mapped` holds. The two replacements are never mapped. -/
structure FpMapping where
  fpMap : Nat → Option XmmReg
  injective : ∀ a b r, fpMap a = some r → fpMap b = some r → a = b
  first : ∀ a, fpMap a ≠ some firstFpReg
  second : ∀ a, fpMap a ≠ some secondFpReg

/-- The calls of `map_fp_reg` in `init_map_context`. -/
def mappedFpRegs : List (Nat × XmmReg) :=
  [(15, 2), (14, 3), (9, 4), (13, 5), (12, 6), (10, 7), (11, 8), (1, 9), (0, 10), (3, 11), (2, 12),
    (31, 13), (20, 14), (24, 15)]

theorem mem_mappedFpRegs {a : Nat} {r : XmmReg} (h : List.lookup a mappedFpRegs = some r) :
    (a, r) ∈ mappedFpRegs := by
  obtain ⟨before, after, heq, -⟩ := List.lookup_eq_some_iff.1 h
  rw [heq]
  exact List.mem_append_right before List.mem_cons_self

theorem mappedFpRegs_ok :
    (∀ p ∈ mappedFpRegs, ∀ q ∈ mappedFpRegs, p.2 = q.2 → p.1 = q.1) ∧
      ∀ p ∈ mappedFpRegs, p.2 ≠ firstFpReg ∧ p.2 ≠ secondFpReg := by decide

/-- The mapping of `init_map_context`. -/
def FpMapping.static : FpMapping where
  fpMap := fun a => List.lookup a mappedFpRegs
  injective := fun a b r ha hb =>
    mappedFpRegs_ok.1 (a, r) (mem_mappedFpRegs ha) (b, r) (mem_mappedFpRegs hb) rfl
  first := fun _ ha => (mappedFpRegs_ok.2 _ (mem_mappedFpRegs ha)).1 rfl
  second := fun _ ha => (mappedFpRegs_ok.2 _ (mem_mappedFpRegs ha)).2 rfl

/-! ## The generator -/

/-- What the helpers change besides emitting code: the state of the integer part, and whether
`critical_not_yet_implemented` stopped the translator. -/
structure FpGenState where
  gen : GenState
  abort : Option Abort

/-- A step of the translator that only appends to the block. -/
abbrev FpGen := EmitLogic.Gen FpGenState SseInstr

/-- A step of the integer part. -/
def liftGp {α : Type} (g : Gen α) : FpGen α := fun s =>
  ((g s.gen).1, (g s.gen).2.1.map .gp, { s with gen := (g s.gen).2.2 })

/-- A step taken only under a condition. -/
def ifNeeded (c : Prop) [Decidable c] (g : FpGen Unit) : FpGen Unit := if c then g else pure ()

/-! ## Helpers of `util.h` -/

section Helpers

variable (flags : Flags) (m : FpMapping)

/-- `RECORD_FP_PROFILER`, under `flag_do_profile`. -/
def recordFpProfiler (fpReg : Nat) : FpGen Unit :=
  ifNeeded (flags.doProfile = true) (Gen.emit (.inc64m (.fpUsage fpReg)))

/-- `getFpReg`. -/
def getFpReg (fpReg : Nat) (replacement : XmmReg) : FpGen XmmReg := do
  recordFpProfiler flags fpReg
  match m.fpMap fpReg with
  | none => do
      Gen.emit (.movsdrm replacement (.fp fpReg))
      return replacement
  | some r => return r

/-- `getFpRegNoLoad`. -/
def getFpRegNoLoad (fpReg : Nat) (replacement : XmmReg) : FpGen XmmReg := do
  recordFpProfiler flags fpReg
  return (m.fpMap fpReg).getD replacement

/-- `setFpReg`. -/
def setFpReg (fpReg : Nat) (regUsed : XmmReg) : FpGen Unit := do
  recordFpProfiler flags fpReg
  ifNeeded (m.fpMap fpReg = none) (Gen.emit (.movsdmr (.fp fpReg) regUsed))

/-- `doFpArithmCommutative`. -/
def doFpArithmCommutative (regSrc1 regSrc2 regDest : XmmReg) (op : SseOp) (form : FpForm) :
    FpGen Unit :=
  if regDest = regSrc1 then Gen.emit (.arithrr op form regSrc1 regSrc2)
  else if regDest = regSrc2 then Gen.emit (.arithrr op form regSrc2 regSrc1)
  else do
    Gen.emit (.movrr .d regDest regSrc1)
    Gen.emit (.arithrr op form regDest regSrc2)

/-- `MXCSR_SAVE`. -/
def mxcsrSave : SseCell := .fctrl 0

/-- `MXCSR_SCRATCH`. -/
def mxcsrScratch : SseCell := .fctrl 1

/-- `saveAndSetRound`. -/
def saveAndSetRound (round : BitVec 32) : FpGen Unit :=
  match toSseRoundMode flags round with
  | .error reason => Gen.modify fun s => { s with abort := some reason }
  | .ok round => do
      let temp ← liftGp invalidateOldest
      Gen.emit (.stmxcsrm mxcsrSave)
      Gen.emit (.mov32rm temp mxcsrSave)
      Gen.emit (.and16mi mxcsrSave 0x6000#16)
      Gen.emit (.and16ri temp 0x9fff#16)
      Gen.emit (.or16ri temp ((round <<< sseRoundShift).setWidth 16))
      Gen.emit (.mov32mr mxcsrScratch temp)
      Gen.emit (.ldmxcsrm mxcsrScratch)

/-- `restoreFpRound`. -/
def restoreFpRound : FpGen Unit := do
  let temp ← liftGp invalidateOldest
  Gen.emit (.stmxcsrm mxcsrScratch)
  Gen.emit (.mov32rm temp mxcsrScratch)
  Gen.emit (.and16ri temp 0x9fff#16)
  Gen.emit (.or16mr mxcsrSave temp)
  Gen.emit (.ldmxcsrm mxcsrSave)

/-- `DYN`. -/
def dyn : BitVec 32 := 7#32

/-- The frame that all emitters share: a rounding mode of the instruction's own is set before
and reset after. -/
def withRound (instr : RiscInstr) (g : FpGen Unit) : FpGen Unit := do
  ifNeeded (instr.roundingMode ≠ dyn) (saveAndSetRound flags instr.roundingMode)
  g
  ifNeeded (instr.roundingMode ≠ dyn) restoreFpRound

/-- An operand is moved to another register under a condition: the register it is in then. -/
def saveIf (c : Prop) [Decidable c] (form : FpForm) (into operand : XmmReg) : FpGen XmmReg :=
  if c then do
    Gen.emit (.movrr form into operand)
    return into
  else return operand

end Helpers

/-! ## The emitters -/

section Emitters

variable (form : FpForm) (flags : Flags) (m : FpMapping) (instr : RiscInstr)

/-- What the fused forms begin with: `rs1 * rs2` in `SECOND_FP_REG`. `regSrc1` and `regDest` are
returned. -/
def fusedProduct (hint : XmmReg) : FpGen (XmmReg × XmmReg) := do
  let regSrc1 ← getFpReg flags m instr.regSrc1 secondFpReg
  let regSrc2 ← getFpReg flags m instr.regSrc2 firstFpReg
  let regDest ← getFpRegNoLoad flags m instr.regDest hint
  ifNeeded (regSrc1 ≠ secondFpReg) (Gen.emit (.movrr form secondFpReg regSrc1))
  Gen.emit (.arithrr .mul form secondFpReg regSrc2)
  return (regSrc1, regDest)

/-- `translate_FMADDS` and `translate_FMADDD`. -/
def translateFMADD : FpGen Unit := withRound flags instr do
  let (_, regDest) ← fusedProduct form flags m instr firstFpReg
  let regSrc3 ← getFpReg flags m instr.regSrc3.toNat regDest
  ifNeeded (regSrc3 ≠ regDest) (Gen.emit (.movrr form regDest regSrc3))
  Gen.emit (.arithrr .add form regDest secondFpReg)
  setFpReg flags m instr.regDest regDest

/-- `translate_FMSUBS` and `translate_FMSUBD`. -/
def translateFMSUB : FpGen Unit := withRound flags instr do
  let (regSrc1, regDest) ← fusedProduct form flags m instr secondFpReg
  let regSrc3 ← getFpReg flags m instr.regSrc3.toNat firstFpReg
  let regSrc3 ← saveIf (regDest = regSrc3) form firstFpReg regSrc3
  ifNeeded (regSrc1 ≠ firstFpReg) (Gen.emit (.movrr form regDest secondFpReg))
  Gen.emit (.arithrr .sub form regDest regSrc3)
  setFpReg flags m instr.regDest regDest

/-- `translate_FNMSUBS` and `translate_FNMSUBD`. The former also assigns to `regSrc3`, which it
does not use again. -/
def translateFNMSUB : FpGen Unit := withRound flags instr do
  let (_, regDest) ← fusedProduct form flags m instr firstFpReg
  let regSrc3 ← getFpReg flags m instr.regSrc3.toNat firstFpReg
  ifNeeded (regDest ≠ regSrc3) (Gen.emit (.movrr form regDest regSrc3))
  Gen.emit (.arithrr .sub form regDest secondFpReg)
  setFpReg flags m instr.regDest regDest

/-- `translate_FNMADDS` and `translate_FNMADDD`. -/
def translateFNMADD : FpGen Unit := withRound flags instr do
  let (_, regDest) ← fusedProduct form flags m instr firstFpReg
  Gen.emit (.xorrr form firstFpReg firstFpReg)
  Gen.emit (.arithrr .sub form firstFpReg secondFpReg)
  let regSrc3 ← getFpReg flags m instr.regSrc3.toNat secondFpReg
  let regSrc3 ← saveIf (regDest = regSrc3) form secondFpReg regSrc3
  ifNeeded (regDest ≠ firstFpReg) (Gen.emit (.movrr form regDest firstFpReg))
  Gen.emit (.arithrr .sub form regDest regSrc3)
  setFpReg flags m instr.regDest regDest

/-- `translate_FADDS`, `translate_FMULS` and their forms for doubles. -/
def translateFpCommutative (op : SseOp) : FpGen Unit := withRound flags instr do
  let regSrc1 ← getFpReg flags m instr.regSrc1 firstFpReg
  let regSrc2 ← getFpReg flags m instr.regSrc2 secondFpReg
  let regDest ← getFpRegNoLoad flags m instr.regDest firstFpReg
  doFpArithmCommutative regSrc1 regSrc2 regDest op form
  setFpReg flags m instr.regDest regDest

/-- What differences and quotients have in common: `rs2` is saved if it is in the destination,
to which `rs1` is then moved. -/
def doFpArithmOrdered (op : SseOp) (regDest : XmmReg) : FpGen Unit := do
  let regSrc2 ← getFpReg flags m instr.regSrc2 secondFpReg
  let regSrc2 ← saveIf (regSrc2 = regDest) form secondFpReg regSrc2
  let regSrc1 ← getFpReg flags m instr.regSrc1 regDest
  ifNeeded (regSrc1 ≠ regDest) (Gen.emit (.movrr form regDest regSrc1))
  Gen.emit (.arithrr op form regDest regSrc2)

/-- `translate_FSUBS` and `translate_FSUBD`. -/
def translateFSUB : FpGen Unit := withRound flags instr do
  let regDest ← getFpRegNoLoad flags m instr.regDest firstFpReg
  (if instr.regDest = instr.regSrc2 ∧ instr.regDest = instr.regSrc1 then
    Gen.emit (.xorrr form regDest regDest)
  else doFpArithmOrdered form flags m instr .sub regDest)
  setFpReg flags m instr.regDest regDest

/-- `translate_FDIVS` and `translate_FDIVD`. -/
def translateFDIV : FpGen Unit := withRound flags instr do
  let regDest ← getFpRegNoLoad flags m instr.regDest firstFpReg
  doFpArithmOrdered form flags m instr .div regDest
  setFpReg flags m instr.regDest regDest

/-- `translate_FSQRTS` and `translate_FSQRTD`. -/
def translateFSQRT : FpGen Unit := withRound flags instr do
  let regSrc1 ← getFpReg flags m instr.regSrc1 firstFpReg
  let regDest ← getFpRegNoLoad flags m instr.regDest firstFpReg
  Gen.emit (.sqrtrr form regDest regSrc1)
  setFpReg flags m instr.regDest regDest

end Emitters

/-- `translate_FMADDS`. -/
def translateFMADDS := translateFMADD .s
/-- `translate_FMSUBS`. -/
def translateFMSUBS := translateFMSUB .s
/-- `translate_FNMSUBS`. -/
def translateFNMSUBS := translateFNMSUB .s
/-- `translate_FNMADDS`. -/
def translateFNMADDS := translateFNMADD .s
/-- `translate_FADDS`. -/
def translateFADDS (flags : Flags) (m : FpMapping) (instr : RiscInstr) :=
  translateFpCommutative .s flags m instr .add
/-- `translate_FSUBS`. -/
def translateFSUBS := translateFSUB .s
/-- `translate_FMULS`. -/
def translateFMULS (flags : Flags) (m : FpMapping) (instr : RiscInstr) :=
  translateFpCommutative .s flags m instr .mul
/-- `translate_FDIVS`. -/
def translateFDIVS := translateFDIV .s
/-- `translate_FSQRTS`. -/
def translateFSQRTS := translateFSQRT .s
/-- `translate_FMADDD`. -/
def translateFMADDD := translateFMADD .d
/-- `translate_FMSUBD`. -/
def translateFMSUBD := translateFMSUB .d
/-- `translate_FNMSUBD`. -/
def translateFNMSUBD := translateFNMSUB .d
/-- `translate_FNMADDD`. -/
def translateFNMADDD := translateFNMADD .d
/-- `translate_FADDD`. -/
def translateFADDD (flags : Flags) (m : FpMapping) (instr : RiscInstr) :=
  translateFpCommutative .d flags m instr .add
/-- `translate_FSUBD`. -/
def translateFSUBD := translateFSUB .d
/-- `translate_FMULD`. -/
def translateFMULD (flags : Flags) (m : FpMapping) (instr : RiscInstr) :=
  translateFpCommutative .d flags m instr .mul
/-- `translate_FDIVD`. -/
def translateFDIVD := translateFDIV .d
/-- `translate_FSQRTD`. -/
def translateFSQRTD := translateFSQRT .d

/-- The cases of `dispatch_instr` for these instructions. -/
def fpEmitter : RiscMnem → Option (Flags → FpMapping → RiscInstr → FpGen Unit)
  | .fmadds => some translateFMADDS
  | .fmsubs => some translateFMSUBS
  | .fnmsubs => some translateFNMSUBS
  | .fnmadds => some translateFNMADDS
  | .fadds => some translateFADDS
  | .fsubs => some translateFSUBS
  | .fmuls => some translateFMULS
  | .fdivs => some translateFDIVS
  | .fsqrts => some translateFSQRTS
  | .fmaddd => some translateFMADDD
  | .fmsubd => some translateFMSUBD
  | .fnmsubd => some translateFNMSUBD
  | .fnmaddd => some translateFNMADDD
  | .faddd => some translateFADDD
  | .fsubd => some translateFSUBD
  | .fmuld => some translateFMULD
  | .fdivd => some translateFDIVD
  | .fsqrtd => some translateFSQRTD
  | _ => none

end RiaJit.Translate
