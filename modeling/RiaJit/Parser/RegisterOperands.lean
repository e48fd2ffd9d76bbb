import RiaJit.Parser.Decoded
import RiaJit.Parser.Rejected

/-!
# Register operands

What the parser stores in the register fields of an instruction that changes the flow of
control and of one that computes with registers. The translator reads them without a check.
-/

set_option autoImplicit false

namespace RiaJit

/-- The operands of a branch, of a jump and of an instruction with three registers. -/
structure RiscInstr.RegisterOperands (instr : RiscInstr) : Prop where
  branch : instr.optype = .branch → instr.regSrc1 < 32 ∧ instr.regSrc2 < 32
  jump : instr.optype = .jump → instr.regDest < 32
  jalr : instr.optype = .jump → instr.mnem = .jalr → instr.regSrc1 < 32 ∧ ShortImm instr.imm
  regReg : instr.optype = .regReg → instr.regSrc1 < 32 ∧ instr.regSrc2 < 32 ∧ instr.regDest < 32

namespace Parser

open Encoding

/-- The result of a parse function has its operands, if it is of one of these kinds. -/
def WithOperands (r : Parsed) : Prop := ∀ n instr, r = .ok (n, instr) → instr.RegisterOperands

section

variable {raw : BitVec 32} {instr : RiscInstr} {flags : Flags} {n : Nat}

/-- Another instruction. -/
theorem registerOperands_other {optype : RiscOptype} (hoptype : instr.optype = optype)
    (hbranch : optype ≠ .branch) (hjump : optype ≠ .jump) (hregReg : optype ≠ .regReg) :
    instr.RegisterOperands :=
  ⟨fun h => absurd (hoptype.symm.trans h) hbranch, fun h => absurd (hoptype.symm.trans h) hjump,
    fun h => absurd (hoptype.symm.trans h) hjump, fun h => absurd (hoptype.symm.trans h) hregReg⟩

/-- An instruction with three registers. -/
theorem registerOperands_regReg (hoptype : instr.optype = .regReg) (hrs1 : instr.regSrc1 < 32)
    (hrs2 : instr.regSrc2 < 32) (hrd : instr.regDest < 32) : instr.RegisterOperands := by
  refine ⟨fun h => ?_, fun h => ?_, fun h => ?_, fun _ => ⟨hrs1, hrs2, hrd⟩⟩
  all_goals
    rw [hoptype] at h
    cases h

theorem withOperands_ok (h : instr.RegisterOperands) : WithOperands (.ok (n, instr)) := by
  rintro n' instr' heq
  obtain ⟨-, rfl⟩ := Prod.mk.inj (Except.ok.inj heq)
  exact h

theorem withOperands_error (errorCode : ErrorEnum) :
    WithOperands (.ok (setErrorMessage raw instr errorCode)) :=
  withOperands_ok (registerOperands_other rfl (by simp) (by simp) (by simp))

theorem withOperands_setMnem {mnem : Option RiscMnem} {errorCode : ErrorEnum}
    (h : ∀ m, mnem = some m → RiscInstr.RegisterOperands { instr with mnem := m }) :
    WithOperands (setMnem raw instr errorCode mnem) := by
  cases mnem with
  | none => exact withOperands_error errorCode
  | some m => exact withOperands_ok (h m rfl)

/-- A switch for instructions of another kind. -/
theorem withOperands_setMnem_other {mnem : Option RiscMnem} {errorCode : ErrorEnum}
    {optype : RiscOptype} (hoptype : instr.optype = optype) (hbranch : optype ≠ .branch)
    (hjump : optype ≠ .jump) (hregReg : optype ≠ .regReg) :
    WithOperands (setMnem raw instr errorCode mnem) :=
  withOperands_setMnem fun _ _ => registerOperands_other hoptype hbranch hjump hregReg

/-- The opcodes of floating-point instructions. -/
theorem withOperands_float {p : Except Abort RiscInstr} (h : ∀ r, p = .ok r → r.optype = .float) :
    WithOperands (p.map (0, ·)) := by
  cases p with
  | error reason => exact fun _ _ heq => by cases heq
  | ok r => exact withOperands_ok (registerOperands_other (h r rfl) (by simp) (by simp) (by simp))

theorem withOperands_parseOpImm (errorCode : ErrorEnum) (sel : Option (RiscMnem × BitVec 32)) :
    WithOperands (parseOpImm raw instr errorCode sel) := by
  cases sel with
  | none => exact withOperands_error errorCode
  | some choice => exact withOperands_ok (registerOperands_other rfl (by simp) (by simp) (by simp))

theorem withOperands_parseOpFp : WithOperands (parseOpFp flags raw instr) := by
  have hfloat : (fpOperands raw instr).optype = .float := by
    unfold fpOperands
    dsimp only
    split <;> split <;> rfl
  unfold parseOpFp
  dsimp only
  generalize fpMnem _ _ _ = mnem
  cases hset : setMnemFp flags (fpOperands raw instr) mnem with
  | error reason => exact fun _ _ heq => by cases heq
  | ok r =>
      have hr : r.optype = .float := (optype_setMnemFp hset).trans hfloat
      show WithOperands (if _ then _ else _)
      split
      · exact withOperands_ok (registerOperands_other hr (by simp) (by simp) (by simp))
      · exact withOperands_float fun r' h => (optype_fitOperandSize h).trans hr

theorem withOperands_parseAmo (hoptype : instr.optype = .regReg) (hrs1 : instr.regSrc1 < 32)
    (hrd : instr.regDest < 32) : WithOperands (parseAmo raw instr) := by
  unfold parseAmo
  dsimp only
  split
  · exact withOperands_error _
  · split
    · exact withOperands_ok (registerOperands_regReg hoptype hrs1 (extractRs2_lt raw) hrd)
    · exact withOperands_ok (registerOperands_regReg hoptype hrs1 (extractRs2_lt raw) hrd)
    · exact withOperands_error _

theorem withOperands_parseOpcode (hoptype : instr.optype = .regReg) (hrs1 : instr.regSrc1 < 32)
    (hrd : instr.regDest < 32) : WithOperands (parseOpcode flags raw instr) := by
  unfold parseOpcode
  -- one case per arm of the switch
  split
  · exact withOperands_ok (registerOperands_other rfl (by simp) (by simp) (by simp))
  · exact withOperands_ok (registerOperands_other rfl (by simp) (by simp) (by simp))
  · refine withOperands_ok ⟨by simp, fun _ => hrd, fun _ h => ?_, by simp⟩
    cases h
  · exact withOperands_ok ⟨by simp, fun _ => hrd, fun _ _ => ⟨hrs1, shortImm_signExtend _⟩, by simp⟩
  · exact withOperands_float fun r h => optype_setMnemFp h
  · exact withOperands_float fun r h => optype_setMnemFp h
  · exact withOperands_setMnem_other rfl (by simp) (by simp) (by simp)
  · refine withOperands_setMnem fun m _ => ⟨fun _ => ⟨hrs1, extractRs2_lt raw⟩, ?_, ?_, ?_⟩
    · exact fun h => by cases h
    · exact fun h => by cases h
    · exact fun h => by cases h
  · exact withOperands_setMnem_other rfl (by simp) (by simp) (by simp)
  · exact withOperands_setMnem_other rfl (by simp) (by simp) (by simp)
  · exact withOperands_setMnem fun _ _ => registerOperands_regReg rfl hrs1 (extractRs2_lt raw) hrd
  · exact withOperands_setMnem_other rfl (by simp) (by simp) (by simp)
  · exact withOperands_parseOpImm _ _
  · unfold parseOp32
    dsimp only
    split
    · exact withOperands_setMnem fun _ _ =>
        registerOperands_regReg rfl hrs1 (extractRs2_lt raw) hrd
    · exact withOperands_setMnem fun _ _ =>
        registerOperands_regReg rfl hrs1 (extractRs2_lt raw) hrd
  · exact withOperands_parseOpImm _ _
  · exact withOperands_float fun r h => optype_setMnemFp h
  · exact withOperands_float fun r h => optype_setMnemFp h
  · exact withOperands_float fun r h => optype_setMnemFp h
  · exact withOperands_float fun r h => optype_setMnemFp h
  · exact withOperands_parseOpFp
  · exact withOperands_parseAmo hoptype hrs1 hrd
  · exact withOperands_error _

end

/-- Every parsed instruction has its operands. -/
theorem parseInstruction_registerOperands (flags : Flags) (mem : CodeMem) (addr : RiscAddr)
    {n : Nat} {instr : RiscInstr} (h : parseInstruction flags mem (.ofAddr addr) = .ok (n, instr)) :
    instr.RegisterOperands := by
  unfold parseInstruction at h
  cases hword : mem (RiscInstr.ofAddr addr).addr with
  | none =>
      rw [hword] at h
      cases h
  | some raw =>
      rw [hword] at h
      have hoptype : (basicStruct raw (.ofAddr addr)).optype = .regReg := rfl
      exact withOperands_parseOpcode hoptype
        (extractRs1_lt raw) (extractRd_lt raw) n instr h

end Parser

end RiaJit
