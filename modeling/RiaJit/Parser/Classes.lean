import RiaJit.Parser.Parser

/-!
# Classes of parsed instructions

What the parser guarantees about every struct it returns: the address is the one it
was given, and the optype of an instruction that changes the flow of control or
accesses the system is the one that belongs to its mnemonic. The translation of
blocks decides by the optype while parsing and by the mnemonic while emitting.
-/

set_option autoImplicit false

namespace RiaJit

/-- The optype that belongs to a mnemonic of control flow, of system access or of the
translator's own. -/
def RiscMnem.controlType : RiscMnem → Option RiscOptype
  | .jal | .jalr => some .jump
  | .beq | .bne | .blt | .bge | .bltu | .bgeu => some .branch
  | .ecall | .ebreak | .fence | .fenceI => some .system
  | .csrrw | .csrrs | .csrrc | .csrrwi | .csrrsi | .csrrci => some .system
  | .manualCsrr | .pcNextInst | .silentNop | .patternEmit => some .pseudo
  | _ => none

/-- The optype itself, if mnemonics determine it. -/
def RiscOptype.controlType : RiscOptype → Option RiscOptype
  | .jump => some .jump
  | .branch => some .branch
  | .system => some .system
  | .pseudo => some .pseudo
  | _ => none

/-- What holds of a parsed instruction. -/
structure RiscInstr.Classified (instr : RiscInstr) : Prop where
  control : instr.mnem.controlType = instr.optype.controlType
  notPseudo : instr.optype ≠ .pseudo
  invalid : instr.optype = .invalidInstruction → instr.mnem = .invalidMnem

/-- The jumps. -/
theorem RiscMnem.of_jump {mnem : RiscMnem} (h : mnem.controlType = some .jump) :
    mnem = .jal ∨ mnem = .jalr := by
  cases mnem <;> first | contradiction | exact .inl rfl | exact .inr rfl

/-- The accesses to control and status registers. -/
def RiscMnem.IsCsr (mnem : RiscMnem) : Prop :=
  mnem = .csrrw ∨ mnem = .csrrs ∨ mnem = .csrrc ∨ mnem = .csrrwi ∨ mnem = .csrrsi ∨
    mnem = .csrrci

/-- The system instructions. -/
theorem RiscMnem.of_system {mnem : RiscMnem} (h : mnem.controlType = some .system) :
    mnem = .ecall ∨ mnem = .ebreak ∨ mnem = .fence ∨ mnem = .fenceI ∨ mnem.IsCsr := by
  cases mnem <;> first | contradiction | simp [RiscMnem.IsCsr]

namespace Parser

/-- The result of a parse function keeps the address and is classified. -/
def Sound (addr : RiscAddr) (r : Parsed) : Prop :=
  ∀ n instr, r = .ok (n, instr) → instr.addr = addr ∧ instr.Classified

/-- The mnemonics of a switch belong to an optype. -/
def MnemsOf (optype : RiscOptype) (mnem : Option RiscMnem) : Prop :=
  ∀ m, mnem = some m → m.controlType = optype.controlType

section

variable {raw : BitVec 32} {instr : RiscInstr} {addr : RiscAddr} {optype : RiscOptype}

theorem sound_ok {n : Nat} (haddr : instr.addr = addr) (hclass : instr.Classified) :
    Sound addr (.ok (n, instr)) := by
  rintro n' instr' heq
  obtain ⟨-, rfl⟩ := Prod.mk.inj (Except.ok.inj heq)
  exact ⟨haddr, hclass⟩

theorem sound_error (reason : Abort) : Sound addr (.error reason) :=
  fun _ _ heq => nomatch heq

/-- An instruction is classified, if its mnemonic is of its optype. -/
theorem classified_of {mnem : RiscMnem} (hmnem : mnem.controlType = optype.controlType)
    (hpseudo : optype ≠ .pseudo) (hvalid : optype ≠ .invalidInstruction)
    (hoptype : instr.optype = optype) (heq : instr.mnem = mnem) : instr.Classified := by
  subst hoptype heq
  exact ⟨hmnem, hpseudo, fun h => absurd h hvalid⟩

/-- An error is an invalid instruction without a mnemonic. -/
theorem sound_setErrorMessage (haddr : instr.addr = addr) (errorCode : ErrorEnum) :
    Sound addr (.ok (setErrorMessage raw instr errorCode)) :=
  sound_ok haddr ⟨rfl, nofun, fun _ => rfl⟩

/-- A selected mnemonic is of the optype of its opcode. -/
theorem sound_setMnem (optype : RiscOptype) (hpseudo : optype ≠ .pseudo)
    (hvalid : optype ≠ .invalidInstruction) {mnem : Option RiscMnem} (hmnem : MnemsOf optype mnem)
    (errorCode : ErrorEnum) (haddr : instr.addr = addr) (hoptype : instr.optype = optype) :
    Sound addr (setMnem raw instr errorCode mnem) := by
  cases mnem with
  | none => exact sound_setErrorMessage haddr errorCode
  | some m => exact sound_ok haddr (classified_of (hmnem m rfl) hpseudo hvalid hoptype rfl)

theorem mnemsOf_none : MnemsOf optype none := nofun

/-- A mnemonic of the optype is one that may be selected. -/
theorem mnemsOf_some {m : RiscMnem} (h : m.controlType = optype.controlType) :
    MnemsOf optype (some m) := by
  rintro m' heq
  obtain rfl := Option.some.inj heq
  exact h

/-! ## Mnemonics of the switches -/

theorem mnemsOf_loadMnem (n : Nat) : MnemsOf .immediate (loadMnem n) := by
  fun_cases loadMnem n <;> first | exact mnemsOf_none | exact mnemsOf_some rfl

theorem mnemsOf_storeMnem (n : Nat) : MnemsOf .store (storeMnem n) := by
  fun_cases storeMnem n <;> first | exact mnemsOf_none | exact mnemsOf_some rfl

theorem mnemsOf_branchMnem (n : Nat) : MnemsOf .branch (branchMnem n) := by
  fun_cases branchMnem n <;> first | exact mnemsOf_none | exact mnemsOf_some rfl

theorem mnemsOf_miscMemMnem (n : Nat) : MnemsOf .system (miscMemMnem n) := by
  fun_cases miscMemMnem n <;> first | exact mnemsOf_none | exact mnemsOf_some rfl

theorem mnemsOf_opMnemMul (n : Nat) : MnemsOf .regReg (opMnemMul n) := by
  fun_cases opMnemMul n <;> first | exact mnemsOf_none | exact mnemsOf_some rfl

theorem mnemsOf_opMnem (bit30 : Bool) (n : Nat) : MnemsOf .regReg (opMnem bit30 n) := by
  cases bit30 <;> fun_cases opMnem _ n <;>
    first | exact mnemsOf_none | exact mnemsOf_some rfl

theorem mnemsOf_op32MnemMul (n : Nat) : MnemsOf .regReg (op32MnemMul n) := by
  fun_cases op32MnemMul n <;> first | exact mnemsOf_none | exact mnemsOf_some rfl

theorem mnemsOf_op32Mnem (bit30 : Bool) (n : Nat) : MnemsOf .regReg (op32Mnem bit30 n) := by
  cases bit30 <;> fun_cases op32Mnem _ n <;>
    first | exact mnemsOf_none | exact mnemsOf_some rfl

/-- The mnemonics of opcode `SYSTEM` are of optype system. -/
theorem mnemsOf_systemMnem (bit20 : Bool) (n : Nat) : MnemsOf .system (systemMnem bit20 n) := by
  cases bit20 <;> fun_cases systemMnem _ n <;>
    first | exact mnemsOf_none | exact mnemsOf_some rfl

/-- The two switches that select a mnemonic and an immediate. -/
theorem mnemsOf_opImmMnem (raw : BitVec 32) :
    MnemsOf .immediate ((opImmMnem raw).map Prod.fst) := by
  unfold opImmMnem
  cases raw.getLsbD 30 <;> split <;> first | exact mnemsOf_none | exact mnemsOf_some rfl

theorem mnemsOf_opImm32Mnem (raw : BitVec 32) :
    MnemsOf .immediate ((opImm32Mnem raw).map Prod.fst) := by
  unfold opImm32Mnem
  cases raw.getLsbD 30 <;> split <;> first | exact mnemsOf_none | exact mnemsOf_some rfl

/-- The mnemonics of opcode `OP_FP` transfer no control. -/
theorem mnemsOf_fpMnem (funct7 funct3 rs2 : Nat) :
    MnemsOf .float (fpMnem funct7 funct3 rs2) := by
  fun_cases fpMnem funct7 funct3 rs2 <;> first | exact mnemsOf_none | exact mnemsOf_some rfl

/-- The double precision mnemonics of `OP_OP_FP`; the conversions between the two
precisions have no such form. -/
theorem mnemsOf_fpMnem_double (funct7 funct3 rs2 : Nat) (h8 : funct7 ≠ 8) :
    MnemsOf .float ((fpMnem funct7 funct3 rs2).map (offsetMnem · .fld .flw)) := by
  fun_cases fpMnem funct7 funct3 rs2 <;>
    first | exact mnemsOf_none | exact mnemsOf_some rfl | exact absurd rfl h8

/-- Atomics are operations on registers, in either width. -/
theorem mnemsOf_amoMnem (n : Nat) :
    MnemsOf .regReg (amoMnem n) ∧ MnemsOf .regReg ((amoMnem n).map (offsetMnem · .lrd .lrw)) := by
  fun_cases amoMnem n <;>
    exact ⟨by first | exact mnemsOf_none | exact mnemsOf_some rfl,
      by first | exact mnemsOf_none | exact mnemsOf_some rfl⟩

/-! ## The cases of the opcode switch -/

/-- An operation with an immediate is one, or an error. -/
theorem sound_parseOpImm (haddr : instr.addr = addr) (errorCode : ErrorEnum)
    {sel : Option (RiscMnem × BitVec 32)} (hsel : MnemsOf .immediate (sel.map Prod.fst)) :
    Sound addr (parseOpImm raw instr errorCode sel) := by
  cases sel with
  | none => exact sound_setErrorMessage haddr errorCode
  | some choice =>
      have hmnem := hsel choice.1 rfl
      exact sound_ok haddr (classified_of hmnem nofun nofun rfl rfl)

/-- The critical error leaves the instruction as it is, or stops. -/
theorem sound_critical (flags : Flags) (haddr : instr.addr = addr) (hclass : instr.Classified) :
    Sound addr ((criticalNotYetImplemented flags instr).map (0, ·)) := by
  unfold criticalNotYetImplemented
  cases flags.failSilently with
  | true => exact sound_ok haddr hclass
  | false => exact sound_error _

/-- A floating point instruction without a mnemonic, where errors are ignored. -/
theorem classified_float (hoptype : instr.optype = .float) (hmnem : instr.mnem.controlType = none) :
    instr.Classified :=
  @classified_of instr .float _ hmnem nofun nofun hoptype rfl

/-- An operation on floating-point numbers keeps its optype, also behind the critical error. -/
theorem sound_setMnemFp (flags : Flags) (haddr : instr.addr = addr)
    (hoptype : instr.optype = .float) (hnone : instr.mnem.controlType = none)
    {mnem : Option RiscMnem} (hmnem : MnemsOf .float mnem) :
    Sound addr ((setMnemFp flags instr mnem).map (0, ·)) := by
  cases mnem with
  | none => exact sound_critical flags haddr (classified_float hoptype hnone)
  | some m => exact sound_ok haddr (classified_float hoptype (hmnem m rfl))

theorem mnemsOf_widthMnem {single double : RiscMnem} (hs : single.controlType = none)
    (hd : double.controlType = none) (n : Nat) : MnemsOf .float (widthMnem single double n) := by
  fun_cases widthMnem single double n
  · exact mnemsOf_some hs
  · exact mnemsOf_some hd
  · exact mnemsOf_none

theorem sound_parseLoadFp (flags : Flags) (haddr : instr.addr = addr)
    (hmnem : instr.mnem.controlType = none) : Sound addr (parseLoadFp flags raw instr) :=
  @sound_setMnemFp { instr with optype := .float, imm := (extractImmI raw).signExtend 64 } addr
    flags haddr rfl hmnem _ (@mnemsOf_widthMnem .flw .fld rfl rfl _)

theorem sound_parseStoreFp (flags : Flags) (haddr : instr.addr = addr)
    (hmnem : instr.mnem.controlType = none) : Sound addr (parseStoreFp flags raw instr) :=
  @sound_setMnemFp
    { instr with
      optype := .float
      imm := (extractImmS raw).signExtend 64
      regSrc2 := (extractRs2 raw).toNat } addr
    flags haddr rfl hmnem _ (@mnemsOf_widthMnem .fsw .fsd rfl rfl _)

theorem mnemsOf_fmaMnem {single double : RiscMnem} (hs : single.controlType = none)
    (hd : double.controlType = none) (n : Nat) : MnemsOf .float (fmaMnem single double n) := by
  fun_cases fmaMnem single double n
  · exact mnemsOf_some hs
  · exact mnemsOf_some hd
  · exact mnemsOf_none

/-- A fused operation keeps its optype, also without a mnemonic. -/
theorem sound_parseFma (flags : Flags) (haddr : instr.addr = addr) {single double : RiscMnem}
    (hnone : instr.mnem.controlType = none) (hs : single.controlType = none)
    (hd : double.controlType = none) : Sound addr (parseFma flags raw instr single double) := by
  let i := { instr with optype := .float, regSrc2 := (extractRs2 raw).toNat }
  let operands :=
    (i.setRegSrc3 (extractRs3 raw)).setRoundingMode (roundingModeOf (extractFunct3 raw))
  exact @sound_setMnemFp operands addr flags haddr rfl hnone _ (mnemsOf_fmaMnem hs hd _)

/-- Reading the operands sets the optype and no more of the class. -/
theorem fpOperands_fields (raw : BitVec 32) (instr : RiscInstr) :
    (fpOperands raw instr).addr = instr.addr ∧ (fpOperands raw instr).mnem = instr.mnem ∧
      (fpOperands raw instr).optype = .float := by
  unfold fpOperands
  dsimp only
  split <;> split <;> exact ⟨rfl, rfl, rfl⟩

/-- The variant for doubles is of the same class. -/
theorem sound_fitOperandSize (flags : Flags) (operandSize : Nat) (haddr : instr.addr = addr)
    (hoptype : instr.optype = .float) (hmnem : instr.mnem.controlType = none)
    (hdouble : (offsetMnem instr.mnem .fld .flw).controlType = none) :
    Sound addr ((fitOperandSize flags operandSize instr).map (0, ·)) := by
  unfold fitOperandSize
  split
  · exact sound_ok haddr (classified_float hoptype hmnem)
  · exact sound_ok haddr (classified_float hoptype hdouble)
  · exact sound_critical flags haddr (classified_float hoptype hmnem)

/-- What opcode `OP_FP` gives is of optype float. -/
theorem sound_parseOpFp (flags : Flags) (haddr : instr.addr = addr)
    (hmnem : instr.mnem = .invalidMnem) : Sound addr (parseOpFp flags raw instr) := by
  obtain ⟨hA, hM, hO⟩ := fpOperands_fields raw instr
  unfold parseOpFp
  dsimp only
  generalize (fpOperands raw instr) = start at hA hM hO
  have hfp := mnemsOf_fpMnem ((extractFunct7 raw).sshiftRight 2).toNat (extractFunct3 raw).toNat
    (extractRs2 raw).toNat
  have hdouble := mnemsOf_fpMnem_double ((extractFunct7 raw).sshiftRight 2).toNat
    (extractFunct3 raw).toNat (extractRs2 raw).toNat
  generalize fpMnem _ _ _ = mnem at hfp hdouble ⊢
  generalize ((extractFunct7 raw).sshiftRight 2).toNat = funct7 at hdouble ⊢
  -- the struct after the mnemonic is stored, or with none where errors are ignored
  obtain ⟨k, hk⟩ : ∃ k : RiscInstr → Parsed, k = fun instr' =>
      if funct7 = 8 then .ok (0, instr')
      else (fitOperandSize flags (extractFunct7 raw &&& 0x3#32).toNat instr').map (0, ·) :=
    ⟨_, rfl⟩
  have hgoOn : ∀ instr' : RiscInstr, instr'.addr = addr → instr'.optype = .float →
      instr'.mnem.controlType = none →
      (funct7 ≠ 8 → (offsetMnem instr'.mnem .fld .flw).controlType = none) →
      Sound addr (k instr') := by
    intro instr' haddr' hoptype' hmnem' hdouble'
    rw [hk]
    dsimp only
    split
    · exact sound_ok haddr' (classified_float hoptype' hmnem')
    · rename_i h8
      exact sound_fitOperandSize flags _ haddr' hoptype' hmnem' (hdouble' h8)
  rw [← hk]
  cases mnem with
  | some m =>
      exact hgoOn { start with mnem := m } (hA.trans haddr) hO (hfp m rfl)
        fun h8 => hdouble h8 _ rfl
  | none =>
      show Sound addr ((criticalNotYetImplemented flags start).bind k)
      unfold criticalNotYetImplemented
      cases flags.failSilently with
      | false => exact sound_error _
      | true =>
          have hinvalid : start.mnem = .invalidMnem := hM.trans hmnem
          exact hgoOn start (hA.trans haddr) hO (by rw [hinvalid]; rfl)
            fun _ => by rw [hinvalid]; rfl

theorem sound_parseAmo (haddr : instr.addr = addr) (hoptype : instr.optype = .regReg) :
    Sound addr (parseAmo raw instr) := by
  unfold parseAmo
  obtain ⟨hword, hdouble⟩ := mnemsOf_amoMnem
    (((extractFunct7 raw).signExtend 64).sshiftRight 2).toNat
  dsimp only
  generalize amoMnem _ = mnem at hword hdouble ⊢
  cases mnem with
  | none => exact sound_ok haddr ⟨rfl, nofun, fun _ => rfl⟩
  | some m =>
      dsimp only
      split
      · exact sound_ok haddr (classified_of (hword m rfl) nofun nofun hoptype rfl)
      · exact sound_ok haddr (classified_of (hdouble _ rfl) nofun nofun hoptype rfl)
      · exact sound_ok haddr ⟨rfl, nofun, fun _ => rfl⟩

theorem sound_parseOp32 (haddr : instr.addr = addr) : Sound addr (parseOp32 raw instr) := by
  unfold parseOp32
  dsimp only
  split
  · exact sound_setMnem .regReg nofun nofun (mnemsOf_op32MnemMul _) _ (by exact haddr) rfl
  · exact sound_setMnem .regReg nofun nofun (mnemsOf_op32Mnem _ _) _ (by exact haddr) rfl

theorem mnemsOf_op (raw : BitVec 32) (n : Nat) :
    MnemsOf .regReg (if raw.getLsbD 25 then opMnemMul n else opMnem (raw.getLsbD 30) n) := by
  split
  · exact mnemsOf_opMnemMul n
  · exact mnemsOf_opMnem _ n

/-- Whatever the opcode is, the instruction is classified and keeps its address. -/
theorem sound_parseOpcode (flags : Flags) (haddr : instr.addr = addr)
    (hmnem : instr.mnem = .invalidMnem) (hoptype : instr.optype = .regReg) :
    Sound addr (parseOpcode flags raw instr) := by
  have hnone : instr.mnem.controlType = none := by
    rw [hmnem]
    rfl
  unfold parseOpcode
  split
  · exact sound_ok haddr ⟨rfl, nofun, nofun⟩
  · exact sound_ok haddr ⟨rfl, nofun, nofun⟩
  · exact sound_ok haddr ⟨rfl, nofun, nofun⟩
  · exact sound_ok haddr ⟨rfl, nofun, nofun⟩
  · exact sound_parseLoadFp flags haddr hnone
  · exact sound_parseStoreFp flags haddr hnone
  · exact sound_setMnem .system nofun nofun (mnemsOf_miscMemMnem _) _ (by exact haddr) rfl
  · exact sound_setMnem .branch nofun nofun (mnemsOf_branchMnem _) _ (by exact haddr) rfl
  · exact sound_setMnem .immediate nofun nofun (mnemsOf_loadMnem _) _ (by exact haddr) rfl
  · exact sound_setMnem .store nofun nofun (mnemsOf_storeMnem _) _ (by exact haddr) rfl
  · exact sound_setMnem .regReg nofun nofun (mnemsOf_op raw _) _ (by exact haddr) rfl
  · exact sound_setMnem .system nofun nofun (mnemsOf_systemMnem _ _) _ (by exact haddr) rfl
  · exact sound_parseOpImm haddr _ (mnemsOf_opImm32Mnem raw)
  · exact sound_parseOp32 haddr
  · exact sound_parseOpImm haddr _ (mnemsOf_opImmMnem raw)
  · exact sound_parseFma flags (by exact haddr) (by rfl) (by rfl) (by rfl)
  · exact sound_parseFma flags haddr hnone (by rfl) (by rfl)
  · exact sound_parseFma flags haddr hnone (by rfl) (by rfl)
  · exact sound_parseFma flags haddr hnone (by rfl) (by rfl)
  · exact sound_parseOpFp flags haddr hmnem
  · exact sound_parseAmo haddr hoptype
  · exact sound_setErrorMessage haddr .unknown

end

/-- The parser keeps the address and classifies what it parses. -/
theorem parseInstruction_sound (flags : Flags) (mem : CodeMem) (addr : RiscAddr) {n : Nat}
    {instr : RiscInstr} (h : parseInstruction flags mem (.ofAddr addr) = .ok (n, instr)) :
    instr.addr = addr ∧ instr.Classified := by
  unfold parseInstruction at h
  cases hword : mem (RiscInstr.ofAddr addr).addr with
  | none =>
      rw [hword] at h
      exact absurd h nofun
  | some raw =>
      rw [hword] at h
      exact @sound_parseOpcode raw (basicStruct raw (.ofAddr addr)) addr flags rfl rfl rfl n instr h

end Parser

end RiaJit
