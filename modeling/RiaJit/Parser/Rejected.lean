import RiaJit.Parser.Encoding

/-!
# Words that are no instruction

Which words the parser marks as invalid: those whose opcode, or whose `funct3` or `funct5`
under an opcode with an error of its own, is unused. It reads no other bit for it, and of
the floating-point opcodes none.
-/

set_option autoImplicit false

namespace RiaJit.Encoding

open RiaJit.Parser

/-- The rounding mode of an instruction, if it has one, is not a reserved one. -/
def Insn.Legal : Insn → Prop
  | .fma _ _ _ _ _ _ rm => rm ≠ 5#3 ∧ rm ≠ 6#3
  | .fArith _ _ _ _ _ rm => rm ≠ 5#3 ∧ rm ≠ 6#3
  | .fUnary _ _ _ _ rm => rm ≠ 5#3 ∧ rm ≠ 6#3
  | .fcvtsd _ _ rm => rm ≠ 5#3 ∧ rm ≠ 6#3
  | .fcvtds _ _ rm => rm ≠ 5#3 ∧ rm ≠ 6#3
  | _ => True

/-- A word that encodes an instruction of RV64IMAFD with Zicsr. -/
def IsInstruction (w : BitVec 32) : Prop := ∃ i : Insn, i.Legal ∧ i.encode = w

/-- The opcode, or `funct3` or `funct5` under it, is one without instructions, and the opcode
is neither a floating-point one nor one all of whose fields are used. -/
def Refused (w : BitVec 32) : Prop :=
  let funct3 := (w.extractLsb' 12 3).toNat
  let funct5 := (w.extractLsb' 27 5).toNat
  match (w.extractLsb' 2 5).toNat with
  | opLoad => funct3 = 7
  | opStore => 4 ≤ funct3
  | opBranch => funct3 = 2 ∨ funct3 = 3
  | opMiscMem => 2 ≤ funct3
  | opSystem => funct3 = 4
  | opOpImm32 => funct3 ∉ [0, 1, 5]
  | opOp32 => if w.getLsbD 25 then funct3 ∈ [1, 2, 3] else funct3 ∉ [0, 1, 5]
  | opAmo => funct5 ∉ [0, 1, 2, 3, 4, 8, 12, 16, 20, 24, 28] ∨ funct3 ∉ [2, 3]
  | opLui | opAuipc | opJal | opJalr | opOp | opOpImm => False
  | opLoadFp | opStoreFp | opMadd | opMsub | opNmsub | opNmadd | opOpFp => False
  | _ => True

/-- The entry is marked as invalid, with the code of an error. -/
def Rejected (p : Parsed) : Prop :=
  ∃ (errorCode : ErrorEnum) (r : RiscInstr), p = .ok (errorCode.ctorIdx, r) ∧
    r.optype = .invalidInstruction ∧ r.mnem = .invalidMnem ∧ r.regDest = errorCode.ctorIdx

section

variable {raw : BitVec 32} {instr : RiscInstr} {n : Nat}

/-- An error message rejects the word. -/
theorem rejected_setErrorMessage (errorCode : ErrorEnum) :
    Rejected (.ok (setErrorMessage raw instr errorCode)) :=
  ⟨errorCode, _, rfl, rfl, rfl, rfl⟩

/-- A word with a mnemonic is not rejected. -/
theorem not_rejected_mnem (h : instr.mnem ≠ .invalidMnem) : ¬ Rejected (.ok (n, instr)) := by
  rintro ⟨errorCode, r, heq, -, hmnem, -⟩
  obtain ⟨-, rfl⟩ := Prod.mk.inj (Except.ok.inj heq)
  exact h hmnem

/-- A word at which the translator stops is not rejected. -/
theorem not_rejected_error (reason : Abort) : ¬ Rejected (.error reason) :=
  fun ⟨_, _, heq, _⟩ => nomatch heq

/-- A switch with an error of its own rejects what has no mnemonic. -/
theorem rejected_setMnem {errorCode : ErrorEnum} {mnem : Option RiscMnem}
    (h : mnem ≠ some .invalidMnem) : Rejected (setMnem raw instr errorCode mnem) ↔ mnem = none := by
  cases mnem with
  | none => exact iff_of_true (rejected_setErrorMessage errorCode) rfl
  | some m => exact iff_of_false (not_rejected_mnem fun heq => h (congrArg some heq)) nofun

/-- An operation with an immediate is rejected, if none is selected. -/
theorem rejected_parseOpImm {errorCode : ErrorEnum} {sel : Option (RiscMnem × BitVec 32)}
    (h : sel.map Prod.fst ≠ some .invalidMnem) :
    Rejected (parseOpImm raw instr errorCode sel) ↔ sel = none := by
  cases sel with
  | none => exact iff_of_true (rejected_setErrorMessage errorCode) rfl
  | some p => exact iff_of_false (not_rejected_mnem fun heq => h (congrArg some heq)) nofun

/-- No result of a floating-point opcode is marked as invalid. -/
theorem not_rejected_float {p : Except Abort RiscInstr}
    (h : ∀ r, p = .ok r → r.optype = .float) : ¬ Rejected (p.map (0, ·)) := by
  cases p with
  | error reason => exact not_rejected_error reason
  | ok r =>
      rintro ⟨errorCode, r', heq, hoptype, -⟩
      obtain ⟨-, rfl⟩ := Prod.mk.inj (Except.ok.inj heq)
      exact absurd ((h r rfl).symm.trans hoptype) nofun

/-- An operation on floating-point numbers stays one, also without a mnemonic. -/
theorem optype_setMnemFp {flags : Flags} {mnem : Option RiscMnem} {r : RiscInstr}
    (h : setMnemFp flags instr mnem = .ok r) : r.optype = instr.optype := by
  cases mnem with
  | some m =>
      obtain rfl := Except.ok.inj h
      rfl
  | none =>
      unfold setMnemFp criticalNotYetImplemented at h
      dsimp only at h
      split at h
      · obtain rfl := Except.ok.inj h
        rfl
      · exact absurd h nofun

/-- So does the variant for the operand size. -/
theorem optype_fitOperandSize {flags : Flags} {r : RiscInstr}
    (h : fitOperandSize flags n instr = .ok r) : r.optype = instr.optype := by
  unfold fitOperandSize at h
  split at h
  · obtain rfl := Except.ok.inj h
    rfl
  · obtain rfl := Except.ok.inj h
    rfl
  · unfold criticalNotYetImplemented at h
    split at h
    · obtain rfl := Except.ok.inj h
      rfl
    · exact absurd h nofun

end

/-! ## The fields that the parser reads -/

section

variable (w : BitVec 32)

theorem toNat_extractOpcode : (extractOpcode w).toNat = (w.extractLsb' 2 5).toNat := by
  have h : extractOpcode w = (w.extractLsb' 2 5).setWidth 32 :=
    sshiftRight_and_mask w (by decide : 2 + 5 ≤ 32)
  rw [h, BitVec.toNat_setWidth_of_le (by decide)]

theorem toNat_extractFunct3 : (extractFunct3 w).toNat = (w.extractLsb' 12 3).toNat := by
  have h : extractFunct3 w = (w.extractLsb' 12 3).setWidth 32 :=
    sshiftRight_and_mask w (by decide : 12 + 3 ≤ 32)
  rw [h, BitVec.toNat_setWidth_of_le (by decide)]

/-- The upper bits of `funct7`, which is stored in `imm`. -/
theorem toNat_amoFunct5 :
    (((extractFunct7 w).signExtend 64).sshiftRight 2).toNat = (w.extractLsb' 27 5).toNat := by
  have h : extractFunct7 w = (w.extractLsb' 25 7).setWidth 32 :=
    sshiftRight_and_mask w (by decide : 25 + 7 ≤ 32)
  have hbits : (w.extractLsb' 25 7).extractLsb' 2 5 = w.extractLsb' 27 5 := by
    apply BitVec.eq_of_getLsbD_eq
    intro i hi
    rw [BitVec.getLsbD_extractLsb', BitVec.getLsbD_extractLsb', BitVec.getLsbD_extractLsb',
      ← Nat.add_assoc, decide_eq_true (show 2 + i < 7 by omega), Bool.true_and]
  rw [h, signExtend_setWidth (by decide), toNat_sshiftRight_setWidth (by decide), hbits]

end

/-! ## Switches without a mnemonic -/

/-- Of the loads only `funct3 = 7` is undefined. -/
theorem loadMnem_none : ∀ n < 8, (loadMnem n = none ↔ n = 7) ∧ loadMnem n ≠ some .invalidMnem := by
  decide

/-- There are four stores. -/
theorem storeMnem_none :
    ∀ n < 8, (storeMnem n = none ↔ 4 ≤ n) ∧ storeMnem n ≠ some .invalidMnem := by
  decide

/-- Of the branches `funct3 = 2` and `3` are undefined. -/
theorem branchMnem_none :
    ∀ n < 8, (branchMnem n = none ↔ n = 2 ∨ n = 3) ∧ branchMnem n ≠ some .invalidMnem := by
  decide

/-- There are two fences. -/
theorem miscMemMnem_none :
    ∀ n < 8, (miscMemMnem n = none ↔ 2 ≤ n) ∧ miscMemMnem n ≠ some .invalidMnem := by
  decide

/-- Of the system instructions only `funct3 = 4` is undefined. -/
theorem systemMnem_none : ∀ (b : Bool), ∀ n < 8,
    (systemMnem b n = none ↔ n = 4) ∧ systemMnem b n ≠ some .invalidMnem := by
  decide

/-- All operations on registers are defined, whatever `funct7` is. -/
theorem opMnem_some : ∀ (b b' : Bool), ∀ n < 8, ∃ m,
    (if b then opMnemMul n else opMnem b' n) = some m ∧ m ≠ .invalidMnem := by
  intro b b' n hn
  have hmul : ∀ n < 8, opMnemMul n ≠ none ∧ opMnemMul n ≠ some .invalidMnem := by decide
  have hplain : ∀ (b' : Bool), ∀ n < 8,
      opMnem b' n ≠ none ∧ opMnem b' n ≠ some .invalidMnem := by decide
  cases b with
  | true =>
      obtain ⟨m, hm⟩ := Option.ne_none_iff_exists'.1 (hmul n hn).1
      exact ⟨m, hm, fun h => (hmul n hn).2 (hm.trans (congrArg some h))⟩
  | false =>
      obtain ⟨m, hm⟩ := Option.ne_none_iff_exists'.1 (hplain b' n hn).1
      exact ⟨m, hm, fun h => (hplain b' n hn).2 (hm.trans (congrArg some h))⟩

/-- Of the products and quotients in 32 bits the high products are undefined. -/
theorem op32MnemMul_none :
    ∀ n < 8, (op32MnemMul n = none ↔ n ∈ [1, 2, 3]) ∧ op32MnemMul n ≠ some .invalidMnem := by
  decide

/-- In 32 bits there are sums, differences and shifts. -/
theorem op32Mnem_none : ∀ (b : Bool), ∀ n < 8,
    (op32Mnem b n = none ↔ n ∉ [0, 1, 5]) ∧ op32Mnem b n ≠ some .invalidMnem := by
  decide

/-- The atomics are those of the table, in both widths. -/
theorem amoMnem_none : ∀ n < 32,
    (amoMnem n = none ↔ n ∉ [0, 1, 2, 3, 4, 8, 12, 16, 20, 24, 28]) ∧
      ∀ m, amoMnem n = some m → m ≠ .invalidMnem ∧ offsetMnem m .lrd .lrw ≠ .invalidMnem := by
  decide

theorem opImm32Mnem_none {w : BitVec 32} {n : Nat} (h : (extractFunct3 w).toNat = n) (hn : n < 8) :
    (opImm32Mnem w = none ↔ n ∉ [0, 1, 5]) ∧
      (opImm32Mnem w).map Prod.fst ≠ some .invalidMnem := by
  unfold opImm32Mnem
  rw [h]
  cases w.getLsbD 30 with
  | true => interval_cases n <;> simp
  | false => interval_cases n <;> simp

theorem opImmMnem_some {w : BitVec 32} {n : Nat} (h : (extractFunct3 w).toNat = n) (hn : n < 8) :
    opImmMnem w ≠ none ∧ (opImmMnem w).map Prod.fst ≠ some .invalidMnem := by
  unfold opImmMnem
  rw [h]
  cases w.getLsbD 30 with
  | true => interval_cases n <;> simp
  | false => interval_cases n <;> simp

/-! ## The opcodes -/

section

variable (flags : Flags) (w : BitVec 32) (instr : RiscInstr)

/-- An atomic is rejected, if its operation or its width is undefined. -/
theorem rejected_parseAmo : Rejected (parseAmo w instr) ↔
    (w.extractLsb' 27 5).toNat ∉ [0, 1, 2, 3, 4, 8, 12, 16, 20, 24, 28] ∨
      (w.extractLsb' 12 3).toNat ∉ [2, 3] := by
  obtain ⟨hnone, hsome⟩ := amoMnem_none _ (w.extractLsb' 27 5).isLt
  unfold parseAmo
  dsimp only
  rw [toNat_amoFunct5, toNat_extractFunct3]
  cases hmnem : amoMnem (w.extractLsb' 27 5).toNat with
  | none => exact iff_of_true (rejected_setErrorMessage _) (.inl (hnone.1 hmnem))
  | some m =>
      obtain ⟨hword, hdouble⟩ := hsome m hmnem
      have hused : ¬ (w.extractLsb' 27 5).toNat ∉ [0, 1, 2, 3, 4, 8, 12, 16, 20, 24, 28] :=
        fun h => nomatch hmnem.symm.trans (hnone.2 h)
      dsimp only
      split
      · rename_i h
        rw [h]
        exact iff_of_false (not_rejected_mnem hword) fun hor => hor.elim hused (by decide)
      · rename_i h
        rw [h]
        exact iff_of_false (not_rejected_mnem hdouble) fun hor => hor.elim hused (by decide)
      · rename_i h2 h3
        refine iff_of_true (rejected_setErrorMessage _) (.inr ?_)
        simp only [List.mem_cons, List.not_mem_nil, or_false]
        rintro (h | h)
        · exact h2 h
        · exact h3 h

/-- Operations on floating-point numbers are never rejected: an undefined one is a critical error.
-/
theorem not_rejected_parseOpFp : ¬ Rejected (parseOpFp flags w instr) := by
  unfold parseOpFp
  dsimp only
  cases hfp : setMnemFp flags (fpOperands w instr) _ with
  | error reason => exact not_rejected_error reason
  | ok r =>
      have hoptype : r.optype = .float := by
        rw [optype_setMnemFp hfp]
        unfold fpOperands
        dsimp only
        split <;> split <;> rfl
      show ¬ Rejected (if _ then _ else _)
      split
      · rintro ⟨errorCode, r', heq, htype, -⟩
        obtain ⟨-, rfl⟩ := Prod.mk.inj (Except.ok.inj heq)
        exact absurd (hoptype.symm.trans htype) nofun
      · exact not_rejected_float fun r' hfit => (optype_fitOperandSize hfit).trans hoptype

/-- The parser rejects what is refused, whatever the struct held before. -/
theorem rejected_parseOpcode : Rejected (parseOpcode flags w instr) ↔ Refused w := by
  have hlt := (w.extractLsb' 12 3).isLt
  unfold parseOpcode Refused
  rw [toNat_extractOpcode]
  dsimp only
  generalize (w.extractLsb' 2 5).toNat = opcode
  -- one case per arm of the switch: an arm without default accepts every word
  split
  · exact iff_of_false (not_rejected_mnem nofun) (fun h => h)
  · exact iff_of_false (not_rejected_mnem nofun) (fun h => h)
  · exact iff_of_false (not_rejected_mnem nofun) (fun h => h)
  · exact iff_of_false (not_rejected_mnem nofun) (fun h => h)
  · exact iff_of_false (not_rejected_float fun r h => optype_setMnemFp h) (fun h => h)
  · exact iff_of_false (not_rejected_float fun r h => optype_setMnemFp h) (fun h => h)
  · unfold parseMiscMem
    rw [toNat_extractFunct3]
    obtain ⟨hnone, hvalid⟩ := miscMemMnem_none _ hlt
    exact (rejected_setMnem hvalid).trans hnone
  · unfold parseBranch
    rw [toNat_extractFunct3]
    obtain ⟨hnone, hvalid⟩ := branchMnem_none _ hlt
    exact (rejected_setMnem hvalid).trans hnone
  · unfold parseLoad
    rw [toNat_extractFunct3]
    obtain ⟨hnone, hvalid⟩ := loadMnem_none _ hlt
    exact (rejected_setMnem hvalid).trans hnone
  · unfold parseStore
    rw [toNat_extractFunct3]
    obtain ⟨hnone, hvalid⟩ := storeMnem_none _ hlt
    exact (rejected_setMnem hvalid).trans hnone
  · unfold parseOp
    dsimp only
    rw [toNat_extractFunct3]
    obtain ⟨m, hm, hvalid⟩ := opMnem_some (w.getLsbD 25) (w.getLsbD 30) _ hlt
    rw [hm]
    exact iff_of_false (not_rejected_mnem hvalid) (fun h => h)
  · unfold Parser.parseSystem
    rw [toNat_extractFunct3]
    obtain ⟨hnone, hvalid⟩ := systemMnem_none (w.getLsbD 20) _ hlt
    exact (rejected_setMnem hvalid).trans hnone
  · obtain ⟨hnone, hvalid⟩ := opImm32Mnem_none (toNat_extractFunct3 w) hlt
    exact (rejected_parseOpImm hvalid).trans hnone
  · unfold parseOp32
    dsimp only
    rw [toNat_extractFunct3]
    split
    · obtain ⟨hnone, hvalid⟩ := op32MnemMul_none _ hlt
      exact (rejected_setMnem hvalid).trans hnone
    · obtain ⟨hnone, hvalid⟩ := op32Mnem_none (w.getLsbD 30) _ hlt
      exact (rejected_setMnem hvalid).trans hnone
  · obtain ⟨hsome, hvalid⟩ := opImmMnem_some (toNat_extractFunct3 w) hlt
    exact iff_of_false (fun h => hsome ((rejected_parseOpImm hvalid).1 h)) (fun h => h)
  · exact iff_of_false (not_rejected_float fun r h => optype_setMnemFp h) (fun h => h)
  · exact iff_of_false (not_rejected_float fun r h => optype_setMnemFp h) (fun h => h)
  · exact iff_of_false (not_rejected_float fun r h => optype_setMnemFp h) (fun h => h)
  · exact iff_of_false (not_rejected_float fun r h => optype_setMnemFp h) (fun h => h)
  · exact iff_of_false (not_rejected_parseOpFp flags w instr) (fun h => h)
  · exact rejected_parseAmo w instr
  · -- the default arm
    refine iff_of_true (rejected_setErrorMessage _) ?_
    split <;> trivial

end

end RiaJit.Encoding
