import RiaJit.Parser.Parser

/-!
# Operands of parsed instructions

What the parser stores in the fields of an instruction of RV64I that neither changes the
flow of control nor accesses the system: registers below 32 where the format has them,
and an immediate in the range of the format.
-/

set_option autoImplicit false

namespace RiaJit

/-- The formats of the instructions without control flow. -/
inductive Format where
  | upper
  | immediate
  | shift (width : Nat)
  | regReg
  | store
  deriving DecidableEq, Repr

/-- The format of a mnemonic; none for the instructions that are not of this kind. -/
def RiscMnem.format : RiscMnem → Option Format
  | .lui | .auipc => some .upper
  | .addi | .slti | .sltiu | .xori | .ori | .andi | .addiw => some .immediate
  | .lb | .lh | .lw | .lbu | .lhu | .lwu | .ld => some .immediate
  | .slli | .srli | .srai => some (.shift 64)
  | .slliw | .srliw | .sraiw => some (.shift 32)
  | .add | .sub | .sll | .slt | .sltu | .xor | .srl | .sra | .or | .and => some .regReg
  | .addw | .subw | .sllw | .srlw | .sraw => some .regReg
  | .sb | .sh | .sw | .sd => some .store
  | _ => none

/-- An immediate of at most 32 bits, sign extended. -/
def ShortImm (imm : BitVec 64) : Prop := (imm.setWidth 32).signExtend 64 = imm

/-- The operands of a format. -/
def Format.Fits (instr : RiscInstr) : Option Format → Prop
  | some .upper => instr.regDest < 32
  | some .immediate => instr.regSrc1 < 32 ∧ instr.regDest < 32 ∧ ShortImm instr.imm
  | some (.shift width) => instr.regSrc1 < 32 ∧ instr.regDest < 32 ∧ instr.imm.toNat < width
  | some .regReg => instr.regSrc1 < 32 ∧ instr.regSrc2 < 32 ∧ instr.regDest < 32
  | some .store => instr.regSrc1 < 32 ∧ instr.regSrc2 < 32 ∧ ShortImm instr.imm
  | none => False

instance (imm : BitVec 64) : Decidable (ShortImm imm) :=
  inferInstanceAs (Decidable (_ = _))

instance (instr : RiscInstr) : (format : Option Format) → Decidable (Format.Fits instr format)
  | some .upper => inferInstanceAs (Decidable (_ < _))
  | some .immediate => inferInstanceAs (Decidable (_ ∧ _ ∧ _))
  | some (.shift _) => inferInstanceAs (Decidable (_ ∧ _ ∧ _))
  | some .regReg => inferInstanceAs (Decidable (_ ∧ _ ∧ _))
  | some .store => inferInstanceAs (Decidable (_ ∧ _ ∧ _))
  | none => inferInstanceAs (Decidable False)

/-- An instruction of RV64I without control flow, with the operands of its format. -/
def RiscInstr.Decoded (instr : RiscInstr) : Prop := Format.Fits instr instr.mnem.format

instance (instr : RiscInstr) : Decidable instr.Decoded :=
  inferInstanceAs (Decidable (Format.Fits _ _))

namespace Parser

/-- The result of a parse function has the operands of its format, if it has one. -/
def Fitting (r : Parsed) : Prop :=
  ∀ n instr, r = .ok (n, instr) → instr.mnem.format ≠ none → instr.Decoded

/-- The mnemonics of a switch have one format, or none. -/
def FormatsOf (format : Option Format) (mnem : Option RiscMnem) : Prop :=
  ∀ m, mnem = some m → m.format = format ∨ m.format = none

section

variable {raw : BitVec 32} {instr : RiscInstr} {format : Option Format}

/-! ## Fields -/

/-- Five bits name one of 32 registers. -/
theorem mask5_lt (v : BitVec 32) : (v &&& 0x1f#32).toNat < 32 := by
  rw [BitVec.toNat_and]
  exact Nat.and_lt_two_pow v.toNat (n := 5) (by decide)

theorem extractRd_lt (raw : BitVec 32) : (extractRd raw).toNat < 32 := mask5_lt _

theorem extractRs1_lt (raw : BitVec 32) : (extractRs1 raw).toNat < 32 := mask5_lt _

theorem extractRs2_lt (raw : BitVec 32) : (extractRs2 raw).toNat < 32 := mask5_lt _

/-- An immediate that was extended from 32 bits is short. -/
theorem shortImm_signExtend (v : BitVec 32) : ShortImm (v.signExtend 64) := by
  have hlow : (v.signExtend 64).setWidth 32 = v := by
    apply BitVec.eq_of_getLsbD_eq
    intro i hi
    rw [BitVec.getLsbD_setWidth, BitVec.getLsbD_signExtend]
    simp [hi, show i < 64 by omega]
  show ((v.signExtend 64).setWidth 32).signExtend 64 = v.signExtend 64
  rw [hlow]

/-- A number below the sign bit is extended by zeros. -/
theorem toNat_signExtend_of_lt {v : BitVec 32} (hv : v.toNat < 2 ^ 31) :
    (v.signExtend 64).toNat = v.toNat := by
  have hmsb : v.msb = false := by
    rw [BitVec.msb_eq_decide]
    exact decide_eq_false (by omega)
  rw [BitVec.signExtend_eq_setWidth_of_msb_false hmsb, BitVec.toNat_setWidth]
  exact Nat.mod_eq_of_lt (by omega)

/-- A shift amount of six bits is below 64. -/
theorem bigShamt_lt (raw : BitVec 32) : ((extractBigShamt raw).signExtend 64).toNat < 64 := by
  have hlt : (extractBigShamt raw).toNat < 64 := by
    unfold extractBigShamt
    rw [BitVec.toNat_and]
    exact Nat.and_lt_two_pow _ (n := 6) (by decide)
  rwa [toNat_signExtend_of_lt (by omega)]

/-- A shift amount of five bits is below 32. -/
theorem smallShamt_lt (raw : BitVec 32) : ((extractSmallShamt raw).signExtend 64).toNat < 32 := by
  have hlt : (extractSmallShamt raw).toNat < 32 := mask5_lt _
  rwa [toNat_signExtend_of_lt (by omega)]

/-! ## Formats of the switches -/

theorem formatsOf_none : FormatsOf format none := nofun

/-- A selected mnemonic has the format of its opcode, or none. -/
theorem formatsOf_some {m : RiscMnem} (h : m.format = format ∨ m.format = none) :
    FormatsOf format (some m) := by
  rintro m' heq
  obtain rfl := Option.some.inj heq
  exact h

/-- Loads are of the format with an immediate. -/
theorem formatsOf_loadMnem (n : Nat) : FormatsOf (some .immediate) (loadMnem n) := by
  fun_cases loadMnem n <;> first | exact formatsOf_none | exact formatsOf_some (.inl rfl)

theorem formatsOf_storeMnem (n : Nat) : FormatsOf (some .store) (storeMnem n) := by
  fun_cases storeMnem n <;> first | exact formatsOf_none | exact formatsOf_some (.inl rfl)

/-- Operations of opcode `OP` are on registers. -/
theorem formatsOf_op (bit25 bit30 : Bool) (n : Nat) :
    FormatsOf (some .regReg) (if bit25 then opMnemMul n else opMnem bit30 n) := by
  cases bit25 with
  | true =>
      fun_cases opMnemMul n <;> first | exact formatsOf_none | exact formatsOf_some (.inr rfl)
  | false =>
      cases bit30 <;> fun_cases opMnem _ n <;>
        first | exact formatsOf_none | exact formatsOf_some (.inl rfl)

theorem formatsOf_op32MnemMul (n : Nat) : FormatsOf (some .regReg) (op32MnemMul n) := by
  fun_cases op32MnemMul n <;> first | exact formatsOf_none | exact formatsOf_some (.inr rfl)

theorem formatsOf_op32Mnem (bit30 : Bool) (n : Nat) :
    FormatsOf (some .regReg) (op32Mnem bit30 n) := by
  cases bit30 <;> fun_cases op32Mnem _ n <;>
    first | exact formatsOf_none | exact formatsOf_some (.inl rfl)

/-- Branches are no instructions of a format. -/
theorem formatsOf_branchMnem (n : Nat) : FormatsOf none (branchMnem n) := by
  fun_cases branchMnem n <;> first | exact formatsOf_none | exact formatsOf_some (.inl rfl)

theorem formatsOf_miscMemMnem (n : Nat) : FormatsOf none (miscMemMnem n) := by
  fun_cases miscMemMnem n <;> first | exact formatsOf_none | exact formatsOf_some (.inl rfl)

theorem formatsOf_systemMnem (bit20 : Bool) (n : Nat) : FormatsOf none (systemMnem bit20 n) := by
  cases bit20 <;> fun_cases systemMnem _ n <;>
    first | exact formatsOf_none | exact formatsOf_some (.inl rfl)

/-- Atomics are no instructions of a format, in either width. -/
theorem formatsOf_amoMnem (n : Nat) :
    FormatsOf none (amoMnem n) ∧ FormatsOf none ((amoMnem n).map (offsetMnem · .lrd .lrw)) := by
  fun_cases amoMnem n <;>
    exact ⟨by first | exact formatsOf_none | exact formatsOf_some (.inl rfl),
      by first | exact formatsOf_none | exact formatsOf_some (.inl rfl)⟩

/-- Nor are operations on floating-point numbers. -/
theorem formatsOf_fpMnem (funct7 funct3 rs2 : Nat) :
    FormatsOf none (fpMnem funct7 funct3 rs2) ∧
      FormatsOf none ((fpMnem funct7 funct3 rs2).map (offsetMnem · .fld .flw)) := by
  fun_cases fpMnem funct7 funct3 rs2 <;>
    exact ⟨by first | exact formatsOf_none | exact formatsOf_some (.inl rfl),
      by first | exact formatsOf_none | exact formatsOf_some (.inl rfl)⟩

/-! ## The cases of the opcode switch -/

theorem fits_setMnem (m : RiscMnem) (format : Option Format) :
    Format.Fits { instr with mnem := m } format = Format.Fits instr format := by
  unfold Format.Fits
  rfl

/-- A parsed instruction has to fit only if it is of a format. -/
theorem fitting_ok {n : Nat} (h : instr.mnem.format ≠ none → instr.Decoded) :
    Fitting (.ok (n, instr)) := by
  rintro n' instr' heq
  obtain ⟨-, rfl⟩ := Prod.mk.inj (Except.ok.inj heq)
  exact h

theorem fitting_none {n : Nat} (h : instr.mnem.format = none) : Fitting (.ok (n, instr)) :=
  fitting_ok fun hsome => absurd h hsome

theorem fitting_error (reason : Abort) : Fitting (.error reason) :=
  fun _ _ heq => nomatch heq

/-- A selected mnemonic fits, if the operands do; an error has no format. -/
theorem fitting_setMnem {mnem : Option RiscMnem} (hmnem : FormatsOf format mnem)
    (hfits : format = none ∨ Format.Fits instr format) (errorCode : ErrorEnum) :
    Fitting (setMnem raw instr errorCode mnem) := by
  cases mnem with
  | none => exact fitting_none rfl
  | some m =>
      refine fitting_ok fun hsome => ?_
      rcases hmnem m rfl with heq | hnone
      · show Format.Fits { instr with mnem := m } m.format
        rw [heq, fits_setMnem]
        exact hfits.resolve_left fun h => hsome (heq.trans h)
      · exact absurd hnone hsome

/-- The critical error leaves the instruction as it is, or stops. -/
theorem fitting_critical (flags : Flags) (h : instr.mnem.format = none) :
    Fitting ((criticalNotYetImplemented flags instr).map (0, ·)) := by
  unfold criticalNotYetImplemented
  cases flags.failSilently with
  | true => exact fitting_none h
  | false => exact fitting_error _

/-- The same for operations on floating-point numbers. -/
theorem fitting_setMnemFp (flags : Flags) (hnone : instr.mnem.format = none)
    {mnem : Option RiscMnem} (hmnem : FormatsOf none mnem) :
    Fitting ((setMnemFp flags instr mnem).map (0, ·)) := by
  cases mnem with
  | none => exact fitting_critical flags hnone
  | some m => exact fitting_none ((hmnem m rfl).elim id id)

theorem formatsOf_widthMnem {single double : RiscMnem} (hs : single.format = none)
    (hd : double.format = none) (n : Nat) : FormatsOf none (widthMnem single double n) := by
  fun_cases widthMnem single double n
  · exact formatsOf_some (.inl hs)
  · exact formatsOf_some (.inl hd)
  · exact formatsOf_none

theorem formatsOf_fmaMnem {single double : RiscMnem} (hs : single.format = none)
    (hd : double.format = none) (n : Nat) : FormatsOf none (fmaMnem single double n) := by
  fun_cases fmaMnem single double n
  · exact formatsOf_some (.inl hs)
  · exact formatsOf_some (.inl hd)
  · exact formatsOf_none

/-- Fused operations are of no format. -/
theorem fitting_parseFma (flags : Flags) {single double : RiscMnem}
    (hnone : instr.mnem.format = none) (hs : single.format = none) (hd : double.format = none) :
    Fitting (parseFma flags raw instr single double) :=
  fitting_setMnemFp flags (by exact hnone) (formatsOf_fmaMnem hs hd _)

/-- The variant for doubles fits, if it has a format at all. -/
theorem fitting_fitOperandSize (flags : Flags) (operandSize : Nat)
    (hnone : instr.mnem.format = none)
    (hdouble : (offsetMnem instr.mnem .fld .flw).format ≠ none →
      Format.Fits instr (offsetMnem instr.mnem .fld .flw).format) :
    Fitting ((fitOperandSize flags operandSize instr).map (0, ·)) := by
  unfold fitOperandSize
  split
  · exact fitting_none hnone
  · refine fitting_ok fun hsome => ?_
    show Format.Fits { instr with mnem := _ } _
    rw [fits_setMnem]
    exact hdouble hsome
  · exact fitting_critical flags hnone

/-- The masks that guard the second operand have no bit in common with the seven of
`funct7`. -/
theorem fpOperands_registers (raw : BitVec 32) (instr : RiscInstr) :
    (fpOperands raw instr).mnem = instr.mnem ∧ (fpOperands raw instr).regDest = instr.regDest ∧
      (fpOperands raw instr).regSrc1 = instr.regSrc1 ∧
      (fpOperands raw instr).regSrc2 = (extractRs2 raw).toNat := by
  have hmask : extractFunct7 raw &&& 0x0100000#32 = 0#32 := by
    unfold extractFunct7
    rw [BitVec.and_assoc]
    exact BitVec.and_zero
  unfold fpOperands
  dsimp only
  rw [if_pos hmask]
  split <;> exact ⟨rfl, rfl, rfl, rfl⟩

/-- Where errors are ignored, an unknown operation of double precision becomes `SLL`, which
is the mnemonic at that offset. -/
theorem fitting_parseOpFp (flags : Flags) (hmnem : instr.mnem = .invalidMnem)
    (hrs1 : instr.regSrc1 < 32) (hrd : instr.regDest < 32) :
    Fitting (parseOpFp flags raw instr) := by
  obtain ⟨hM, hD, hS1, hS2⟩ := fpOperands_registers raw instr
  unfold parseOpFp
  dsimp only
  obtain ⟨hsingle, hdouble⟩ := formatsOf_fpMnem ((extractFunct7 raw).sshiftRight 2).toNat
    (extractFunct3 raw).toNat (extractRs2 raw).toNat
  generalize fpMnem _ _ _ = mnem at hsingle hdouble ⊢
  generalize fpOperands raw instr = start at hM hD hS1 hS2 ⊢
  -- conversions between the formats return at once, all others are fitted to their format
  have hgoOn : ∀ instr' : RiscInstr, instr'.mnem.format = none →
      ((offsetMnem instr'.mnem .fld .flw).format ≠ none →
        Format.Fits instr' (offsetMnem instr'.mnem .fld .flw).format) →
      Fitting (if ((extractFunct7 raw).sshiftRight 2).toNat = 8 then .ok (0, instr')
        else (fitOperandSize flags (extractFunct7 raw &&& 0x3#32).toNat instr').map (0, ·)) := by
    intro instr' hnone hdouble'
    split
    · exact fitting_none hnone
    · exact fitting_fitOperandSize flags _ hnone hdouble'
  cases mnem with
  | some m =>
      have hnone := (hdouble _ rfl).elim id id
      exact hgoOn { start with mnem := m } ((hsingle m rfl).elim id id)
        fun hsome => absurd hnone hsome
  | none =>
      unfold setMnemFp criticalNotYetImplemented
      cases flags.failSilently with
      | false => exact fitting_error _
      | true =>
          have hstart : start.mnem = .invalidMnem := hM.trans hmnem
          refine hgoOn start (by rw [hstart]; rfl) fun _ => ?_
          rw [hstart]
          show start.regSrc1 < 32 ∧ start.regSrc2 < 32 ∧ start.regDest < 32
          rw [hS1, hS2, hD]
          exact ⟨hrs1, extractRs2_lt raw, hrd⟩

theorem fitting_parseAmo : Fitting (parseAmo raw instr) := by
  unfold parseAmo
  obtain ⟨hword, hdouble⟩ := formatsOf_amoMnem
    (((extractFunct7 raw).signExtend 64).sshiftRight 2).toNat
  dsimp only
  generalize amoMnem _ = mnem at hword hdouble ⊢
  cases mnem with
  | none => exact fitting_none rfl
  | some m =>
      dsimp only
      split
      · exact fitting_none ((hword m rfl).elim id id)
      · exact fitting_none ((hdouble _ rfl).elim id id)
      · exact fitting_none rfl

/-- The two immediate opcodes. -/
theorem fitting_parseOpImm (errorCode : ErrorEnum) {sel : Option (RiscMnem × BitVec 32)}
    (hsel : ∀ m imm, sel = some (m, imm) →
      Format.Fits { instr with imm := imm.signExtend 64 } m.format) :
    Fitting (parseOpImm raw instr errorCode sel) := by
  cases sel with
  | none => exact fitting_none rfl
  | some choice => exact fitting_ok fun _ => hsel choice.1 choice.2 rfl

/-- The operands of an operation with an immediate fit, shift amounts included. -/
theorem fits_opImmMnem (hrs1 : instr.regSrc1 < 32) (hrd : instr.regDest < 32) (m : RiscMnem)
    (imm : BitVec 32) (h : opImmMnem raw = some (m, imm)) :
    Format.Fits { instr with imm := imm.signExtend 64 } m.format := by
  have himm : ShortImm ((extractImmI raw).signExtend 64) := shortImm_signExtend _
  unfold opImmMnem at h
  split at h <;> cases h
  · exact ⟨hrs1, hrd, himm⟩
  · exact ⟨hrs1, hrd, bigShamt_lt raw⟩
  · exact ⟨hrs1, hrd, himm⟩
  · exact ⟨hrs1, hrd, himm⟩
  · exact ⟨hrs1, hrd, himm⟩
  · cases raw.getLsbD 30 <;> exact ⟨hrs1, hrd, bigShamt_lt raw⟩
  · exact ⟨hrs1, hrd, himm⟩
  · exact ⟨hrs1, hrd, himm⟩

/-- The same for the operations in 32 bits. -/
theorem fits_opImm32Mnem (hrs1 : instr.regSrc1 < 32) (hrd : instr.regDest < 32) (m : RiscMnem)
    (imm : BitVec 32) (h : opImm32Mnem raw = some (m, imm)) :
    Format.Fits { instr with imm := imm.signExtend 64 } m.format := by
  unfold opImm32Mnem at h
  split at h <;> cases h
  · exact ⟨hrs1, hrd, shortImm_signExtend _⟩
  · exact ⟨hrs1, hrd, smallShamt_lt raw⟩
  · cases raw.getLsbD 30 <;> exact ⟨hrs1, hrd, smallShamt_lt raw⟩

theorem fitting_parseOp32 (hrs1 : instr.regSrc1 < 32) (hrd : instr.regDest < 32) :
    Fitting (parseOp32 raw instr) := by
  unfold parseOp32
  dsimp only
  split
  · refine fitting_setMnem (formatsOf_op32MnemMul _) (.inr ?_) _
    exact ⟨hrs1, extractRs2_lt raw, hrd⟩
  · refine fitting_setMnem (formatsOf_op32Mnem _ _) (.inr ?_) _
    exact ⟨hrs1, extractRs2_lt raw, hrd⟩

/-- Whatever the opcode is, what is parsed fits. -/
theorem fitting_parseOpcode (flags : Flags) (hmnem : instr.mnem = .invalidMnem)
    (hrs1 : instr.regSrc1 < 32) (hrd : instr.regDest < 32) :
    Fitting (parseOpcode flags raw instr) := by
  have hnone : instr.mnem.format = none := by
    rw [hmnem]
    rfl
  have himm : ShortImm ((extractImmI raw).signExtend 64) := shortImm_signExtend _
  unfold parseOpcode
  -- one case per arm of the switch
  split
  · exact fitting_ok fun _ => hrd
  · exact fitting_ok fun _ => hrd
  · exact fitting_none rfl
  · exact fitting_none rfl
  · exact fitting_setMnemFp flags (by exact hnone) (formatsOf_widthMnem (by rfl) (by rfl) _)
  · exact fitting_setMnemFp flags (by exact hnone) (formatsOf_widthMnem (by rfl) (by rfl) _)
  · exact fitting_setMnem (formatsOf_miscMemMnem _) (.inl rfl) _
  · exact fitting_setMnem (formatsOf_branchMnem _) (.inl rfl) _
  · refine fitting_setMnem (formatsOf_loadMnem _) (.inr ?_) _
    exact ⟨hrs1, hrd, himm⟩
  · refine fitting_setMnem (formatsOf_storeMnem _) (.inr ?_) _
    exact ⟨hrs1, extractRs2_lt raw, shortImm_signExtend _⟩
  · refine fitting_setMnem (formatsOf_op _ _ _) (.inr ?_) _
    exact ⟨hrs1, extractRs2_lt raw, hrd⟩
  · exact fitting_setMnem (formatsOf_systemMnem _ _) (.inl rfl) _
  · exact fitting_parseOpImm _ fun m imm h => fits_opImm32Mnem hrs1 hrd m imm h
  · exact fitting_parseOp32 hrs1 hrd
  · exact fitting_parseOpImm _ fun m imm h => fits_opImmMnem hrs1 hrd m imm h
  · exact fitting_parseFma flags rfl rfl rfl
  · exact fitting_parseFma flags hnone rfl rfl
  · exact fitting_parseFma flags hnone rfl rfl
  · exact fitting_parseFma flags hnone rfl rfl
  · exact fitting_parseOpFp flags hmnem hrs1 hrd
  · exact fitting_parseAmo
  · exact fitting_none rfl

end

/-- Every parsed instruction that has a format has its operands. -/
theorem parseInstruction_decoded (flags : Flags) (mem : CodeMem) (addr : RiscAddr) {n : Nat}
    {instr : RiscInstr} (h : parseInstruction flags mem (.ofAddr addr) = .ok (n, instr))
    (hformat : instr.mnem.format ≠ none) : instr.Decoded := by
  unfold parseInstruction at h
  cases hword : mem (RiscInstr.ofAddr addr).addr with
  | none =>
      rw [hword] at h
      exact absurd h nofun
  | some raw =>
      rw [hword] at h
      exact @fitting_parseOpcode raw (basicStruct raw (.ofAddr addr)) flags rfl (extractRs1_lt raw)
        (extractRd_lt raw) n instr h hformat

end Parser

end RiaJit
