import RiaJit.Gen.Simulation

/-!
# Computations, loads and stores are simulated

One theorem for each emitter of `translate_arithmetic.c` and `translate_loadstore.c`,
assembled from what its tail computes.
-/

set_option autoImplicit false

namespace RiaJit.Translate

open EmitLogic X86

/-! ## Instructions with an immediate -/

section Immediates

variable (flags : Flags) {instr : RiscInstr} {h : HostState}

/-- `LUI` writes its immediate. -/
theorem simulates_LUI (hmnem : instr.mnem = .lui) (hrd : instr.regDest < 32) :
    Simulates (translateLUI flags instr) fun g => g.step instr := by
  have hval : ∀ a b, instr.aluResult a b = some instr.imm := fun a b => by
    unfold RiscInstr.aluResult
    rw [hmnem]
  refine (simulates_rd hrd fun Rd h => ?_).step (step_alu hval)
  exact computes_feEnc64 rfl rfl (writes_setReg ..)

/-- `AUIPC` adds its immediate to the address of the instruction. -/
theorem simulates_AUIPC (hmnem : instr.mnem = .auipc) (hrd : instr.regDest < 32) :
    Simulates (translateAUIPC flags instr) fun g => g.step instr := by
  have hval : ∀ a b, instr.aluResult a b = some (instr.addr + instr.imm) := fun a b => by
    unfold RiscInstr.aluResult
    rw [hmnem]
  by_cases hx0 : instr.regDest = x0
  · have hnone : translateAUIPC flags instr = pure () := if_neg fun hne => hne hx0
    rw [hnone]
    refine Simulates.ret.step fun g => ?_
    rw [step_alu hval, hx0]
    exact write_x0 g _
  · have hsome : translateAUIPC flags instr =
        (getRd flags instr >>= fun Rd => feEnc64 (.mov64ri Rd (instr.addr + instr.imm))) :=
      if_pos hx0
    rw [hsome]
    refine (simulates_rd hrd fun Rd h => ?_).step (step_alu hval)
    exact computes_feEnc64 rfl rfl (writes_setReg ..)

theorem addr_memAt (h : HostState) (R : FeReg) (off : BitVec 64) :
    h.addr (memAt R off) = h.reg R + off := by
  show h.reg R + 0#64 + off = _
  rw [BitVec.add_zero]

/-- A sum with an immediate, by `ADD` where the registers agree and by `LEA` elsewhere. -/
theorem computes_addImm (himm : FeInstr.fitsInt32 instr.imm = true) (R1 Rd : FeReg) :
    Computes (addImm instr .s64 R1 Rd) h Rd (h.reg R1 + instr.imm) := by
  unfold addImm
  split
  · refine computes_feEnc64 himm rfl ?_
    rw [addr_memAt]
    exact writes_setReg ..
  · rename_i hsame
    obtain rfl := not_not.1 hsame
    unfold onlyIf
    split
    · exact computes_aluri .add .s64 _ himm
    · rename_i hzero
      exact computes_none.cast (by rw [not_not.1 hzero, BitVec.add_zero])

/-- `ADDI` adds its immediate, also where it only copies or loads a constant. -/
theorem simulates_ADDI (hmnem : instr.mnem = .addi) (hrs1 : instr.regSrc1 < 32)
    (hrd : instr.regDest < 32) (himm : FeInstr.fitsInt32 instr.imm = true) :
    Simulates (translateADDI flags instr) fun g => g.step instr := by
  refine simulates_alu1 flags (fun a => a + instr.imm) (fun a b => ?_) hrs1 hrd
    fun R1 Rd _ => computes_addImm himm R1 Rd
  unfold RiscInstr.aluResult
  rw [hmnem]

/-- The addition in 32 bits; the result may have any upper half. -/
theorem computes_addImmW (himm : FeInstr.fitsInt32 instr.imm = true) (R1 Rd : FeReg) :
    ∃ v, Computes (addImm instr .s32 R1 Rd) h Rd v ∧
      v.setWidth 32 = (h.reg R1).setWidth 32 + instr.imm.setWidth 32 := by
  unfold addImm
  split
  · refine ⟨_, computes_feEnc64 himm rfl (writes_setReg ..), ?_⟩
    rw [addr_memAt, setWidth_sized, setWidth_add]
  · rename_i hsame
    obtain rfl := not_not.1 hsame
    unfold onlyIf
    split
    · exact ⟨_, computes_aluri .add .s32 _ himm, setWidth_sized ..⟩
    · rename_i hzero
      refine ⟨_, computes_none, ?_⟩
      rw [not_not.1 hzero]
      exact (BitVec.add_zero _).symm

/-- `ADDIW` adds in 32 bits and extends the sign. -/
theorem simulates_ADDIW (hmnem : instr.mnem = .addiw) (hrs1 : instr.regSrc1 < 32)
    (hrd : instr.regDest < 32) (himm : FeInstr.fitsInt32 instr.imm = true) :
    Simulates (translateADDIW flags instr) fun g => g.step instr := by
  refine simulates_alu1 flags (fun a => sext32 (a.setWidth 32 + instr.imm.setWidth 32))
    (fun a b => ?_) hrs1 hrd fun R1 Rd h => ?_
  · unfold RiscInstr.aluResult
    rw [hmnem]
  · obtain ⟨v, hv, heq⟩ := computes_addImmW (h := h) himm R1 Rd
    exact hv.signExtend.cast (by rw [heq])

/-- A comparison with an immediate sets the destination by a condition of the host. -/
theorem simulates_setImm {cond : Cond}
    (hval : ∀ a b, instr.aluResult a b = some (boolValue (cond.holds (cmpFlags a instr.imm))))
    (hrs1 : instr.regSrc1 < 32) (hrd : instr.regDest < 32)
    (himm : FeInstr.fitsInt32 instr.imm = true) :
    Simulates (setImm flags instr cond) fun g => g.step instr :=
  simulates_alu1 flags (fun a => boolValue (cond.holds (cmpFlags a instr.imm))) hval hrs1 hrd
    fun R1 Rd _ => computes_compare (i := .cmp64ri R1 instr.imm) himm rfl cond Rd

/-- `SLTI` compares as signed numbers. -/
theorem simulates_SLTI (hmnem : instr.mnem = .slti) (hrs1 : instr.regSrc1 < 32)
    (hrd : instr.regDest < 32) (himm : FeInstr.fitsInt32 instr.imm = true) :
    Simulates (translateSLTI flags instr) fun g => g.step instr := by
  refine simulates_setImm flags (fun a b => ?_) hrs1 hrd himm
  rw [holds_l]
  unfold RiscInstr.aluResult
  rw [hmnem]

/-- `SLTIU` compares as unsigned numbers. -/
theorem simulates_SLTIU (hmnem : instr.mnem = .sltiu) (hrs1 : instr.regSrc1 < 32)
    (hrd : instr.regDest < 32) (himm : FeInstr.fitsInt32 instr.imm = true) :
    Simulates (translateSLTIU flags instr) fun g => g.step instr := by
  refine simulates_setImm flags (fun a b => ?_) hrs1 hrd himm
  rw [holds_c]
  unfold RiscInstr.aluResult
  rw [hmnem]

/-- A move to the destination, which does nothing where the source lies there. -/
theorem computes_moveUnlessSame (R1 Rd : FeReg) :
    Computes (moveUnlessSame .s64 Rd R1) h Rd (h.reg R1) := by
  unfold moveUnlessSame onlyIf
  split
  · exact computes_movrr .s64 Rd R1
  · rename_i hsame
    rw [← not_not.1 hsame]
    exact computes_none

/-- A move of the lower half; the upper half is cleared or as it was. -/
theorem computes_moveUnlessSameW (R1 Rd : FeReg) :
    ∃ v, Computes (moveUnlessSame .s32 Rd R1) h Rd v ∧
      v.setWidth 32 = (h.reg R1).setWidth 32 := by
  unfold moveUnlessSame onlyIf
  split
  · exact ⟨_, computes_movrr .s32 Rd R1, setWidth_sized ..⟩
  · rename_i hsame
    rw [← not_not.1 hsame]
    exact ⟨_, computes_none, rfl⟩

/-- A bitwise operation with an immediate. -/
theorem simulates_logicImm {op : AluOp}
    (hval : ∀ a b, instr.aluResult a b = some (op.eval a instr.imm))
    (hrs1 : instr.regSrc1 < 32) (hrd : instr.regDest < 32)
    (himm : FeInstr.fitsInt32 instr.imm = true) :
    Simulates (logicImm flags instr op) fun g => g.step instr := by
  refine simulates_alu1 flags (fun a => op.eval a instr.imm) hval hrs1 hrd fun R1 Rd h => ?_
  refine (computes_moveUnlessSame R1 Rd).bind fun h' hw => ?_
  rw [← hw.self]
  exact computes_aluri op .s64 Rd himm

theorem simulates_XORI (hmnem : instr.mnem = .xori) (hrs1 : instr.regSrc1 < 32)
    (hrd : instr.regDest < 32) (himm : FeInstr.fitsInt32 instr.imm = true) :
    Simulates (translateXORI flags instr) fun g => g.step instr := by
  refine simulates_logicImm flags (fun a b => ?_) hrs1 hrd himm
  unfold RiscInstr.aluResult
  rw [hmnem]
  rfl

theorem simulates_ORI (hmnem : instr.mnem = .ori) (hrs1 : instr.regSrc1 < 32)
    (hrd : instr.regDest < 32) (himm : FeInstr.fitsInt32 instr.imm = true) :
    Simulates (translateORI flags instr) fun g => g.step instr := by
  refine simulates_logicImm flags (fun a b => ?_) hrs1 hrd himm
  unfold RiscInstr.aluResult
  rw [hmnem]
  rfl

theorem simulates_ANDI (hmnem : instr.mnem = .andi) (hrs1 : instr.regSrc1 < 32)
    (hrd : instr.regDest < 32) (himm : FeInstr.fitsInt32 instr.imm = true) :
    Simulates (translateANDI flags instr) fun g => g.step instr := by
  refine simulates_alu1 flags (fun a => a &&& instr.imm) (fun a b => ?_) hrs1 hrd
    fun R1 Rd h => ?_
  · unfold RiscInstr.aluResult
    rw [hmnem]
  · unfold andSize
    split
    · rename_i hzext
      obtain ⟨v, hv, heq⟩ := computes_moveUnlessSameW (h := h) R1 Rd
      refine hv.bind fun h' hw => (computes_aluri .and .s32 Rd himm).cast ?_
      show ((h'.reg Rd).setWidth 32 &&& instr.imm.setWidth 32).setWidth 64 = _
      rw [hw.self, heq]
      exact and_of_zext hzext
    · refine (computes_moveUnlessSame R1 Rd).bind fun h' hw => ?_
      rw [← hw.self]
      exact computes_aluri .and .s64 Rd himm

end Immediates

/-! ## Shifts by an immediate -/

section ImmediateShifts

variable (flags : Flags) {instr : RiscInstr} {h : HostState}

/-- The masked immediate is what the host takes of a shift amount. -/
theorem maskImm_toNat (size : OpSize) (imm : BitVec 64) :
    (maskImm size imm).toNat =
      match size with
      | .s64 => imm.toNat % 64
      | .s32 => imm.toNat % 32 := by
  cases size with
  | s64 =>
      show (imm &&& 0x3f#64).toNat = _
      rw [BitVec.toNat_and]
      exact Nat.and_two_pow_sub_one_eq_mod imm.toNat 6
  | s32 =>
      show (imm &&& 0x1f#64).toNat = _
      rw [BitVec.toNat_and]
      exact Nat.and_two_pow_sub_one_eq_mod imm.toNat 5

/-- An immediate below 64 is not changed by the mask. -/
theorem shifted_maskImm (op : ShiftOp) (a : BitVec 64) {imm : BitVec 64} (himm : imm.toNat < 64) :
    shifted op .s64 a (maskImm .s64 imm) = op.eval a imm.toNat := by
  show op.eval a _ = _
  rw [maskImm_toNat]
  dsimp only
  rw [Nat.mod_mod, Nat.mod_eq_of_lt himm]

/-- An immediate below 32 is not changed by the mask of a shift in 32 bits. -/
theorem shifted_maskImmW (op : ShiftOp) (a : BitVec 64) {imm : BitVec 64} (himm : imm.toNat < 32) :
    (shifted op .s32 a (maskImm .s32 imm)).setWidth 32 = op.eval (a.setWidth 32) imm.toNat := by
  show ((op.eval (a.setWidth 32) _).setWidth 64).setWidth 32 = _
  rw [BitVec.setWidth_setWidth_of_le _ (by decide), BitVec.setWidth_eq, maskImm_toNat]
  dsimp only
  rw [Nat.mod_mod, Nat.mod_eq_of_lt himm]

theorem computes_shiftri (op : ShiftOp) (size : OpSize) (Rd : FeReg) (imm : BitVec 64) :
    Computes (feEnc64 (.shiftri op size Rd imm)) h Rd (shifted op size (h.reg Rd) imm) :=
  computes_feEnc64 rfl rfl (writes_setReg ..).clobberFlags

/-- A scaled index is a small left shift. -/
theorem addr_scaled (h : HostState) (n : Nat) (R : FeReg) :
    h.addr ⟨none, some (1 <<< n, R), 0#64⟩ = h.reg R <<< n := by
  have hscale : BitVec.ofNat 64 (1 <<< n) = BitVec.twoPow 64 n := by
    apply BitVec.eq_of_toNat_eq
    rw [BitVec.toNat_ofNat, BitVec.toNat_twoPow, Nat.one_shiftLeft]
  show 0#64 + BitVec.ofNat 64 (1 <<< n) * h.reg R + 0#64 = _
  rw [BitVec.add_zero, BitVec.zero_add, hscale, BitVec.twoPow_mul_eq_shiftLeft]

theorem setWidth_shiftLeft (a : BitVec 64) (n : Nat) :
    (a <<< n).setWidth 32 = a.setWidth 32 <<< n := by
  apply BitVec.eq_of_getLsbD_eq
  intro i hi
  rw [BitVec.getLsbD_setWidth, BitVec.getLsbD_shiftLeft, BitVec.getLsbD_shiftLeft,
    BitVec.getLsbD_setWidth]
  have h64 : i < 64 := by omega
  have hsub : i - n < 32 := by omega
  simp [hi, h64, hsub]

/-- A shift to the left, by `LEA` for small amounts. -/
theorem computes_shiftLeftImm (himm : instr.imm.toNat < 64) (R1 Rd : FeReg) :
    Computes (shiftLeftImm instr .s64 R1 Rd) h Rd (h.reg R1 <<< instr.imm.toNat) := by
  unfold shiftLeftImm
  dsimp only
  split
  · have hmask : (maskImm .s64 instr.imm).toNat = instr.imm.toNat := by
      rw [maskImm_toNat]
      exact Nat.mod_eq_of_lt himm
    refine computes_feEnc64 rfl rfl ?_
    rw [hmask, addr_scaled]
    exact writes_setReg ..
  · refine (computes_moveUnlessSame R1 Rd).bind fun h' hw =>
      Computes.cast (computes_shiftri _ _ _ _) ?_
    rw [hw.self]
    exact shifted_maskImm .shl _ himm

/-- The low half of a shift to the left in 32 bits. -/
theorem computes_shiftLeftImmW (himm : instr.imm.toNat < 32) (R1 Rd : FeReg) :
    ∃ v, Computes (shiftLeftImm instr .s32 R1 Rd) h Rd v ∧
      v.setWidth 32 = (h.reg R1).setWidth 32 <<< instr.imm.toNat := by
  unfold shiftLeftImm
  dsimp only
  split
  · have hmask : (maskImm .s32 instr.imm).toNat = instr.imm.toNat := by
      rw [maskImm_toNat]
      exact Nat.mod_eq_of_lt himm
    refine ⟨_, computes_feEnc64 rfl rfl (writes_setReg ..), ?_⟩
    rw [hmask, addr_scaled, setWidth_sized]
    exact setWidth_shiftLeft ..
  · obtain ⟨v, hv, heq⟩ := computes_moveUnlessSameW (h := h) R1 Rd
    refine ⟨_, hv.bind fun h' hw =>
      Computes.cast (computes_shiftri _ _ _ _) (by rw [hw.self]), ?_⟩
    rw [shifted_maskImmW .shl _ himm, heq]
    rfl

/-- `SLLI` shifts to the left. -/
theorem simulates_SLLI (hmnem : instr.mnem = .slli) (hrs1 : instr.regSrc1 < 32)
    (hrd : instr.regDest < 32) (himm : instr.imm.toNat < 64) :
    Simulates (translateSLLI flags instr) fun g => g.step instr := by
  refine simulates_alu1 flags (fun a => a <<< instr.imm.toNat) (fun a b => ?_) hrs1 hrd
    fun R1 Rd _ => computes_shiftLeftImm himm R1 Rd
  unfold RiscInstr.aluResult
  rw [hmnem]

/-- `SLLIW` shifts to the left in 32 bits and extends the sign. -/
theorem simulates_SLLIW (hmnem : instr.mnem = .slliw) (hrs1 : instr.regSrc1 < 32)
    (hrd : instr.regDest < 32) (himm : instr.imm.toNat < 32) :
    Simulates (translateSLLIW flags instr) fun g => g.step instr := by
  refine simulates_alu1 flags (fun a => sext32 (a.setWidth 32 <<< instr.imm.toNat))
    (fun a b => ?_) hrs1 hrd fun R1 Rd h => ?_
  · unfold RiscInstr.aluResult
    rw [hmnem]
  · obtain ⟨v, hv, heq⟩ := computes_shiftLeftImmW (h := h) himm R1 Rd
    exact hv.signExtend.cast (by rw [heq])

/-- A shift to the right by an immediate. -/
theorem simulates_shiftRightImm {op : ShiftOp}
    (hval : ∀ a b, instr.aluResult a b = some (op.eval a instr.imm.toNat))
    (hrs1 : instr.regSrc1 < 32) (hrd : instr.regDest < 32) (himm : instr.imm.toNat < 64) :
    Simulates (shiftRightImm flags instr op) fun g => g.step instr := by
  refine simulates_alu1 flags (fun a => op.eval a instr.imm.toNat) hval hrs1 hrd fun R1 Rd h => ?_
  refine (computes_moveUnlessSame R1 Rd).bind fun h' hw =>
    Computes.cast (computes_shiftri _ _ _ _) ?_
  rw [hw.self]
  exact shifted_maskImm op _ himm

theorem simulates_SRLI (hmnem : instr.mnem = .srli) (hrs1 : instr.regSrc1 < 32)
    (hrd : instr.regDest < 32) (himm : instr.imm.toNat < 64) :
    Simulates (translateSRLI flags instr) fun g => g.step instr := by
  refine simulates_shiftRightImm flags (fun a b => ?_) hrs1 hrd himm
  unfold RiscInstr.aluResult
  rw [hmnem]
  rfl

theorem simulates_SRAI (hmnem : instr.mnem = .srai) (hrs1 : instr.regSrc1 < 32)
    (hrd : instr.regDest < 32) (himm : instr.imm.toNat < 64) :
    Simulates (translateSRAI flags instr) fun g => g.step instr := by
  refine simulates_shiftRightImm flags (fun a b => ?_) hrs1 hrd himm
  unfold RiscInstr.aluResult
  rw [hmnem]
  rfl

/-- A shift to the right in 32 bits by an immediate, extended by the sign. -/
theorem simulates_shiftRightImmW {op : ShiftOp}
    (hval : ∀ a b, instr.aluResult a b = some (sext32 (op.eval (a.setWidth 32) instr.imm.toNat)))
    (hrs1 : instr.regSrc1 < 32) (hrd : instr.regDest < 32) (himm : instr.imm.toNat < 32) :
    Simulates (shiftRightImmW flags instr op) fun g => g.step instr := by
  refine simulates_alu1 flags (fun a => sext32 (op.eval (a.setWidth 32) instr.imm.toNat)) hval hrs1
    hrd fun R1 Rd h => ?_
  obtain ⟨v, hv, heq⟩ := computes_moveUnlessSameW (h := h) R1 Rd
  refine hv.bind fun h' hw =>
    Computes.cast (Computes.signExtend (computes_shiftri op .s32 Rd (maskImm .s32 instr.imm))) ?_
  rw [shifted_maskImmW op _ himm, hw.self, heq]

theorem simulates_SRLIW (hmnem : instr.mnem = .srliw) (hrs1 : instr.regSrc1 < 32)
    (hrd : instr.regDest < 32) (himm : instr.imm.toNat < 32) :
    Simulates (translateSRLIW flags instr) fun g => g.step instr := by
  refine simulates_shiftRightImmW flags (fun a b => ?_) hrs1 hrd himm
  unfold RiscInstr.aluResult
  rw [hmnem]
  rfl

theorem simulates_SRAIW (hmnem : instr.mnem = .sraiw) (hrs1 : instr.regSrc1 < 32)
    (hrd : instr.regDest < 32) (himm : instr.imm.toNat < 32) :
    Simulates (translateSRAIW flags instr) fun g => g.step instr := by
  refine simulates_shiftRightImmW flags (fun a b => ?_) hrs1 hrd himm
  unfold RiscInstr.aluResult
  rw [hmnem]
  rfl

end ImmediateShifts

/-! ## Register-register operations -/

section Registers

variable (flags : Flags) {instr : RiscInstr} {h : HostState}

/-- `doArithmCommutative`, where the operation commutes or `rd` is not `rs2`. -/
theorem computes_doArithmCommutative (op : AluOp) (size : OpSize) {R1 R2 Rd : FeReg}
    (hcomm : Rd = R2 → Rd ≠ R1 → ∀ a b, sized size op.eval a b = sized size op.eval b a) :
    Computes (doArithmCommutative R1 R2 Rd op size) h Rd
      (sized size op.eval (h.reg R1) (h.reg R2)) := by
  unfold doArithmCommutative
  split
  · rename_i h1
    rw [h1]
    exact computes_alurr op size R1 R2
  · rename_i h1
    split
    · rename_i h2
      refine Computes.cast ?_ (hcomm h2 h1 (h.reg R2) (h.reg R1))
      rw [h2]
      exact computes_alurr op size R2 R1
    · rename_i h2
      refine (computes_movrr .s64 Rd R1).bind fun h' hw => (computes_alurr op size Rd R2).cast ?_
      rw [hw.self, hw.other (Ne.symm h2)]
      rfl

/-- An operation that commutes in every width commutes in the two widths of the host. -/
theorem sized_comm {f : {n : Nat} → BitVec n → BitVec n → BitVec n}
    (hf : ∀ {n : Nat} (a b : BitVec n), f a b = f b a) (size : OpSize) (a b : BitVec 64) :
    sized size f a b = sized size f b a := by
  cases size with
  | s64 => exact hf a b
  | s32 =>
      show (f _ _).setWidth 64 = (f _ _).setWidth 64
      rw [hf]

theorem addr_sum (h : HostState) (R1 R2 : FeReg) :
    h.addr ⟨some R1, some (1, R2), 0#64⟩ = h.reg R1 + h.reg R2 := by
  show h.reg R1 + 1#64 * h.reg R2 + 0#64 = _
  rw [BitVec.add_zero, BitVec.one_mul]

theorem computes_emit {i : FeInstr} {h' : HostState} {R : FeReg} {v : BitVec 64}
    (hexec : i.exec h = some h') (hw : Writes h h' R v) : Computes (Gen.emit i) h R v :=
  fun s => ⟨h', Runs.emit s hexec, hw⟩

/-- A sum of two registers, wherever the destination lies. -/
theorem computes_addReg (R1 R2 Rd : FeReg) :
    Computes (addReg .s64 R1 R2 Rd) h Rd (h.reg R1 + h.reg R2) := by
  unfold addReg
  split
  · refine computes_emit rfl ?_
    rw [addr_sum]
    exact writes_setReg ..
  · exact computes_doArithmCommutative .add .s64 fun _ _ =>
      sized_comm (fun a b => BitVec.add_comm a b) .s64

/-- The low half of a sum in 32 bits. -/
theorem computes_addRegW (R1 R2 Rd : FeReg) :
    ∃ v, Computes (addReg .s32 R1 R2 Rd) h Rd v ∧
      v.setWidth 32 = (h.reg R1).setWidth 32 + (h.reg R2).setWidth 32 := by
  unfold addReg
  split
  · refine ⟨_, computes_emit rfl (writes_setReg ..), ?_⟩
    rw [addr_sum, setWidth_sized]
    exact setWidth_add ..
  · refine ⟨_, computes_doArithmCommutative .add .s32 fun _ _ =>
      sized_comm (fun a b => BitVec.add_comm a b) .s32, ?_⟩
    rw [setWidth_sized]
    rfl

/-- `ADD` adds two registers. -/
theorem simulates_ADD (hmnem : instr.mnem = .add) (hrs1 : instr.regSrc1 < 32)
    (hrs2 : instr.regSrc2 < 32) (hrd : instr.regDest < 32) :
    Simulates (translateADD flags instr) fun g => g.step instr := by
  refine simulates_alu2 flags (fun a b => a + b) (fun a b => ?_) hrs1 hrs2 hrd
    fun R1 R2 Rd _ => computes_addReg R1 R2 Rd
  unfold RiscInstr.aluResult
  rw [hmnem]

/-- `ADDW` adds in 32 bits and extends the sign. -/
theorem simulates_ADDW (hmnem : instr.mnem = .addw) (hrs1 : instr.regSrc1 < 32)
    (hrs2 : instr.regSrc2 < 32) (hrd : instr.regDest < 32) :
    Simulates (translateADDW flags instr) fun g => g.step instr := by
  refine simulates_alu2 flags (fun a b => sext32 (a.setWidth 32 + b.setWidth 32)) (fun a b => ?_)
    hrs1 hrs2 hrd fun R1 R2 Rd h => ?_
  · unfold RiscInstr.aluResult
    rw [hmnem]
  · obtain ⟨v, hv, heq⟩ := computes_addRegW (h := h) R1 R2 Rd
    exact hv.signExtend.cast (by rw [heq])

theorem computes_neg (size : OpSize) (Rd : FeReg) :
    Computes (feEnc64 (.neg size Rd)) h Rd (sized size (fun a _ => -a) (h.reg Rd) 0#64) :=
  computes_feEnc64 rfl rfl (writes_setReg ..).clobberFlags

/-- `NEG` and `ADD` where the destination lies in the register of `rs2`. -/
theorem computes_negAdd (size : OpSize) {R1 R2 : FeReg} (hne : R1 ≠ R2) :
    Computes (do feEnc64 (.neg size R2); feEnc64 (.alurr .add size R2 R1)) h R2
      (sized size (fun a b => a + b) (sized size (fun a _ => -a) (h.reg R2) 0#64) (h.reg R1)) := by
  refine (computes_neg size R2).bind fun h' hw => (computes_alurr .add size R2 R1).cast ?_
  rw [hw.self, hw.other hne]
  rfl

/-- A difference of two registers, by `NEG` and `ADD` where the destination is the second. -/
theorem computes_subReg (R1 R2 Rd : FeReg) :
    Computes (subReg .s64 R1 R2 Rd) h Rd (h.reg R1 - h.reg R2) := by
  unfold subReg
  split
  · rename_i h2
    split
    · rename_i h1
      refine (computes_alurr .xor .s32 Rd Rd).cast ?_
      rw [← h1, ← h2, BitVec.sub_self]
      show ((_ ^^^ _ : BitVec 32).setWidth 64) = _
      rw [BitVec.xor_self]
      rfl
    · rename_i h1
      rw [h2]
      refine (computes_negAdd .s64 fun h => h1 (h2.trans h.symm)).cast ?_
      show -h.reg R2 + h.reg R1 = _
      rw [BitVec.add_comm, BitVec.sub_eq_add_neg]
  · rename_i h2
    exact computes_doArithmCommutative .sub .s64 fun h => absurd h h2

/-- The low half of a difference in 32 bits. -/
theorem computes_subRegW (R1 R2 Rd : FeReg) :
    ∃ v, Computes (subReg .s32 R1 R2 Rd) h Rd v ∧
      v.setWidth 32 = (h.reg R1).setWidth 32 - (h.reg R2).setWidth 32 := by
  unfold subReg
  split
  · rename_i h2
    split
    · rename_i h1
      refine ⟨_, computes_alurr .xor .s32 Rd Rd, ?_⟩
      rw [setWidth_sized, ← h1, ← h2, BitVec.sub_self]
      exact BitVec.xor_self
    · rename_i h1
      rw [h2]
      refine ⟨_, computes_negAdd .s32 fun h => h1 (h2.trans h.symm), ?_⟩
      rw [setWidth_sized, setWidth_sized, BitVec.add_comm, BitVec.sub_eq_add_neg]
  · rename_i h2
    refine ⟨_, computes_doArithmCommutative .sub .s32 fun h => absurd h h2, ?_⟩
    rw [setWidth_sized]
    rfl

/-- `SUB` subtracts the second register. -/
theorem simulates_SUB (hmnem : instr.mnem = .sub) (hrs1 : instr.regSrc1 < 32)
    (hrs2 : instr.regSrc2 < 32) (hrd : instr.regDest < 32) :
    Simulates (translateSUB flags instr) fun g => g.step instr := by
  refine simulates_alu2 flags (fun a b => a - b) (fun a b => ?_) hrs1 hrs2 hrd
    fun R1 R2 Rd _ => computes_subReg R1 R2 Rd
  unfold RiscInstr.aluResult
  rw [hmnem]

/-- `SUBW` subtracts in 32 bits and extends the sign. -/
theorem simulates_SUBW (hmnem : instr.mnem = .subw) (hrs1 : instr.regSrc1 < 32)
    (hrs2 : instr.regSrc2 < 32) (hrd : instr.regDest < 32) :
    Simulates (translateSUBW flags instr) fun g => g.step instr := by
  refine simulates_alu2 flags (fun a b => sext32 (a.setWidth 32 - b.setWidth 32)) (fun a b => ?_)
    hrs1 hrs2 hrd fun R1 R2 Rd h => ?_
  · unfold RiscInstr.aluResult
    rw [hmnem]
  · obtain ⟨v, hv, heq⟩ := computes_subRegW (h := h) R1 R2 Rd
    exact hv.signExtend.cast (by rw [heq])

/-- A bitwise operation on two registers, in either order. -/
theorem simulates_logicReg {op : AluOp}
    (hval : ∀ a b, instr.aluResult a b = some (op.eval a b))
    (hcomm : ∀ {n : Nat} (a b : BitVec n), op.eval a b = op.eval b a)
    (hrs1 : instr.regSrc1 < 32) (hrs2 : instr.regSrc2 < 32) (hrd : instr.regDest < 32) :
    Simulates (logicReg flags instr op) fun g => g.step instr :=
  simulates_alu2 flags (fun a b => op.eval a b) hval hrs1 hrs2 hrd fun _ _ _ _ =>
    computes_doArithmCommutative op .s64 fun _ _ => sized_comm hcomm .s64

theorem simulates_XOR (hmnem : instr.mnem = .xor) (hrs1 : instr.regSrc1 < 32)
    (hrs2 : instr.regSrc2 < 32) (hrd : instr.regDest < 32) :
    Simulates (translateXOR flags instr) fun g => g.step instr := by
  refine simulates_logicReg flags (fun a b => ?_) (fun a b => BitVec.xor_comm a b) hrs1 hrs2 hrd
  unfold RiscInstr.aluResult
  rw [hmnem]
  rfl

theorem simulates_OR (hmnem : instr.mnem = .or) (hrs1 : instr.regSrc1 < 32)
    (hrs2 : instr.regSrc2 < 32) (hrd : instr.regDest < 32) :
    Simulates (translateOR flags instr) fun g => g.step instr := by
  refine simulates_logicReg flags (fun a b => ?_) (fun a b => BitVec.or_comm a b) hrs1 hrs2 hrd
  unfold RiscInstr.aluResult
  rw [hmnem]
  rfl

theorem simulates_AND (hmnem : instr.mnem = .and) (hrs1 : instr.regSrc1 < 32)
    (hrs2 : instr.regSrc2 < 32) (hrd : instr.regDest < 32) :
    Simulates (translateAND flags instr) fun g => g.step instr := by
  refine simulates_logicReg flags (fun a b => ?_) (fun a b => BitVec.and_comm a b) hrs1 hrs2 hrd
  unfold RiscInstr.aluResult
  rw [hmnem]
  rfl

/-- A comparison of two registers sets the destination by a condition of the host. -/
theorem simulates_setReg {cond : Cond}
    (hval : ∀ a b, instr.aluResult a b = some (boolValue (cond.holds (cmpFlags a b))))
    (hrs1 : instr.regSrc1 < 32) (hrs2 : instr.regSrc2 < 32) (hrd : instr.regDest < 32) :
    Simulates (setReg flags instr cond) fun g => g.step instr :=
  simulates_alu2 flags (fun a b => boolValue (cond.holds (cmpFlags a b))) hval hrs1 hrs2 hrd
    fun R1 R2 Rd _ => computes_compare (i := .cmp64rr R1 R2) rfl rfl cond Rd

/-- `SLT` compares as signed numbers. -/
theorem simulates_SLT (hmnem : instr.mnem = .slt) (hrs1 : instr.regSrc1 < 32)
    (hrs2 : instr.regSrc2 < 32) (hrd : instr.regDest < 32) :
    Simulates (translateSLT flags instr) fun g => g.step instr := by
  refine simulates_setReg flags (fun a b => ?_) hrs1 hrs2 hrd
  rw [holds_l]
  unfold RiscInstr.aluResult
  rw [hmnem]

/-- `SLTU` compares as unsigned numbers. -/
theorem simulates_SLTU (hmnem : instr.mnem = .sltu) (hrs1 : instr.regSrc1 < 32)
    (hrs2 : instr.regSrc2 < 32) (hrd : instr.regDest < 32) :
    Simulates (translateSLTU flags instr) fun g => g.step instr := by
  refine simulates_setReg flags (fun a b => ?_) hrs1 hrs2 hrd
  rw [holds_c]
  unfold RiscInstr.aluResult
  rw [hmnem]

end Registers

/-! ## Shifts by a register -/

section RegisterShifts

variable {flags : Flags} {instr : RiscInstr} {g : GuestState} {r : RegisterInfo} {h : HostState}
  {e : Bool}

/-- What is left of a value in an operation of the given size. -/
def lowPart (size : OpSize) (a : BitVec 64) : BitVec 64 := sized size (fun a _ => a) a 0#64

theorem lowPart_lowPart (size : OpSize) (a : BitVec 64) :
    lowPart size (lowPart size a) = lowPart size a := by
  cases size with
  | s64 => rfl
  | s32 =>
      show ((lowPart .s32 a).setWidth 32).setWidth 64 = _
      exact congrArg (BitVec.setWidth 64) (setWidth_sized (fun a _ => a) a 0#64)

/-- A shift looks only at the part of the operand that it works on. -/
theorem shifted_lowPart (op : ShiftOp) (size : OpSize) (a count : BitVec 64) :
    shifted op size (lowPart size a) count = shifted op size a count := by
  cases size with
  | s64 => rfl
  | s32 =>
      show (op.eval ((lowPart .s32 a).setWidth 32) _).setWidth 64 = _
      rw [show (lowPart .s32 a).setWidth 32 = a.setWidth 32 from
        setWidth_sized (fun a _ => a) a 0#64]
      rfl

/-- The destination is taken from `CX` to another replacement; what `CX` physically holds and
the other operand stay. -/
theorem relocate_runs (hrep : Represents instr.regDest g r h) (hrd : instr.regDest < 32)
    (hmap : gpMap instr.regDest = none) (hcx : r.replacementContent 2 = instr.regDest)
    {i : Fin 3} (hi : i ≠ 2) {R1 : FeReg} {rs1 : Nat} (ho : Operand g r h R1 rs1 1)
    (hne : R1 ≠ getRegForIndex i) (hne' : R1 ≠ .cx) :
    ∃ r' h', RunsOn (do invalidateReplacement i; loadIntoSpecific instr.regDest i true) ⟨r, e⟩ h
        (getRegForIndex i) ⟨r', e⟩ h' ∧ Represents instr.regDest g r' h' ∧
      Located r' (getRegForIndex i) instr.regDest ∧ Outside h h' ∧ h'.reg .cx = h.reg .cx ∧
      h'.reg R1 = h.reg R1 := by
  have hinv := hrep.invalidate i
  obtain ⟨r', h', hrun, hp⟩ := loadIntoSpecific_runs (e := e) (h := writtenBack r h i) hinv.wf
    hmap hrd i true
  have hregs : (writtenBack r h i).reg = h.reg := writtenBack_reg i
  refine ⟨r', h', .bind (invalidateReplacement_runs r h e i) hrun, ⟨hp.wf, fun y hy hyd hlt => ?_,
    hp.frame.mem.trans hinv.mem⟩, .inr ⟨hmap, i, rfl, hp.content⟩,
    (frame_writtenBack hrep.wf i).outside.trans hp.frame.outside, ?_, ?_⟩
  · rw [hp.values y hy hyd hlt]
    exact hinv.regs y hy hyd hlt
  · have hcx' : (r.note i invalidReg 0).replacementContent 2 = instr.regDest := by
      rw [RegisterInfo.note_content_of_ne (Ne.symm hi), hcx]
    have hmoved := (hp.moved 2 (Ne.symm hi) hcx').2.2
    rw [if_neg (by simp)] at hmoved
    rw [hregs] at hmoved
    exact hmoved
  · rcases ho.1 with hmapped | ⟨j, rfl, hj, -⟩
    · rw [hp.frame.reg R1 (gpMap_ne_replacement hmapped), hregs]
    · have hji : j ≠ i := fun h => hne (by rw [h])
      have hother : (r.note i invalidReg 0).replacementContent j ≠ instr.regDest := by
        rw [RegisterInfo.note_content_of_ne hji]
        intro hjd
        -- two replacements would hold the destination
        have h2 : j = 2 := hrep.wf.distinct j 2 (hjd.trans hcx.symm) (by rwa [hjd])
          (by rw [hjd]; unfold invalidReg; omega)
        exact hne' (by rw [h2]; rfl)
      rw [(hp.others j hji hother).2.2, hregs]

/-- The destination lies besides the shift amount afterwards. -/
theorem destBesides_runs (hrep : Represents instr.regDest g r h) (hrd : instr.regDest < 32)
    {R1 Rd : FeReg} {rs1 : Nat} (ho : Operand g r h R1 rs1 1) (hloc : Located r Rd instr.regDest)
    (hne : Rd ≠ R1) :
    ∃ Rd' r' h', RunsOn (destBesides instr R1 .cx Rd) ⟨r, e⟩ h Rd' ⟨r', e⟩ h' ∧
      Represents instr.regDest g r' h' ∧ Located r' Rd' instr.regDest ∧ Outside h h' ∧
      h'.reg .cx = h.reg .cx ∧ h'.reg R1 = h.reg R1 ∧ Rd' ≠ .cx := by
  unfold destBesides
  by_cases hcx : Rd = .cx
  · subst hcx
    rw [if_pos rfl]
    rcases hloc with hmapped | ⟨hmap, i, hi, hcontent⟩
    · exact absurd rfl (gpMap_ne_replacement hmapped 2)
    · obtain rfl : (2 : Fin 3) = i := getRegForIndex_injective hi
      unfold relocateDest
      by_cases hax : R1 = .ax
      · rw [if_pos hax]
        obtain ⟨r', h', hrun, hrep', hloc', hout, hcx, hR1⟩ := relocate_runs (e := e) hrep hrd hmap
          hcontent (i := 1) (by decide) ho (by rw [hax]; exact nofun) (Ne.symm hne)
        exact ⟨_, r', h', hrun, hrep', hloc', hout, hcx, hR1, nofun⟩
      · rw [if_neg hax]
        obtain ⟨r', h', hrun, hrep', hloc', hout, hcx, hR1⟩ := relocate_runs (e := e) hrep hrd hmap
          hcontent (i := 0) (by decide) ho hax (Ne.symm hne)
        exact ⟨_, r', h', hrun, hrep', hloc', hout, hcx, hR1, nofun⟩
  · rw [if_neg hcx]
    exact ⟨Rd, r, h, Runs.ret _ _ _, hrep, hloc, Outside.refl h, rfl, rfl, hcx⟩

/-- The register that is shifted holds `rs1`, and `CX` the amount. -/
theorem shiftDest_runs (size : OpSize) (hrep : Represents instr.regDest g r h)
    (hrd : instr.regDest < 32) {R1 Rd : FeReg} {rs1 : Nat} (ho : Operand g r h R1 rs1 1)
    (hloc : Located r Rd instr.regDest) :
    ∃ Rd' r' h₁ h' v, RunsOn (shiftDest instr size R1 .cx Rd) ⟨r, e⟩ h Rd' ⟨r', e⟩ h' ∧
      Represents instr.regDest g r' h₁ ∧ Located r' Rd' instr.regDest ∧ Outside h h₁ ∧
      Writes h₁ h' Rd' v ∧ lowPart size v = lowPart size (g.read rs1) ∧
      h'.reg .cx = h.reg .cx := by
  unfold shiftDest
  by_cases hne : Rd ≠ R1
  · rw [if_pos hne]
    obtain ⟨Rd', r', h₁, hrun, hrep₁, hloc₁, hout, hcx, hR1, hnecx⟩ :=
      destBesides_runs (e := e) hrep hrd ho hloc hne
    obtain ⟨h₂, hrun₂, hw⟩ := computes_movrr size Rd' R1 (h := h₁) ⟨r', e⟩
    refine ⟨Rd', r', h₁, h₂, _, .bind hrun (.bind hrun₂ (Runs.ret _ _ _)), hrep₁, hloc₁, hout, hw,
      ?_, ?_⟩
    · rw [hR1, ho.2]
      exact lowPart_lowPart size _
    · rw [hw.other (Ne.symm hnecx), hcx]
  · rw [if_neg hne]
    refine ⟨Rd, r, h, h, _, Runs.ret _ _ _, hrep, hloc, Outside.refl h, writes_refl h Rd, ?_, rfl⟩
    rw [not_not.1 hne, ho.2]

/-- The shifts by a register differ in what follows the shift. -/
theorem simulates_shift (op : ShiftOp) (size : OpSize) {f : BitVec 64 → BitVec 64}
    (hval : ∀ a b, instr.aluResult a b = some (f (shifted op size a b)))
    (hrs1 : instr.regSrc1 < 32) (hrs2 : instr.regSrc2 < 32) (hrd : instr.regDest < 32)
    (tail : FeReg → FeReg → Gen Unit)
    (htail : ∀ Rd h, Computes (tail Rd .cx) h Rd (f (shifted op size (h.reg Rd) (h.reg .cx)))) :
    Simulates (do
        let regSrc2 ← getRs2Into flags instr 2
        let regSrc1 ← getRs1 flags instr
        let regDest ← getRd flags instr
        let regDest ← shiftDest instr size regSrc1 regSrc2 regDest
        tail regDest regSrc2)
      fun g => g.step instr := by
  refine Simulates.step (fun g r h e hrep => ?_) (step_alu hval)
  obtain ⟨r₁, h₁, hrun₁, hrep₁, hout₁, ho₂⟩ := getSrcInto_operand (e := e) flags hrep hrs2 2
  obtain ⟨R1, r₂, h₂, hrun₂, hf₂, ho₁⟩ := getSrc_runs (e := e) flags hrep₁ hrs1
  obtain ⟨Rd, r₃, h₃, hrun₃, hf₃, hloc⟩ := getRd_runs (e := e) flags hf₂.rep hrd
  have hcx : h₃.reg .cx = g.read instr.regSrc2 :=
    (hf₃.operands _ _ 1 (Nat.le_refl 1) hrs2 (hf₂.operands _ _ 0 (Nat.zero_le 1) hrs2 ho₂)).2
  have ho₁' := hf₃.operands R1 _ 0 (Nat.zero_le 1) hrs1 ho₁
  obtain ⟨Rd', r₄, h₄, h₅, v, hrun₄, hrep₄, hloc₄, hout₄, hw₄, hv, hcx₄⟩ :=
    shiftDest_runs (e := e) size hf₃.rep hrd ho₁' hloc
  obtain ⟨h₆, hrun₆, hw₆⟩ := htail Rd' h₅ ⟨r₄, e⟩
  have hw := hw₄.trans hw₆
  rw [hw₄.self, hcx₄, hcx, ← shifted_lowPart, hv, shifted_lowPart] at hw
  exact ⟨r₄, h₆, .bind hrun₁ (.bind hrun₂ (.bind hrun₃ (.bind hrun₄ hrun₆))),
    hrep₄.write hloc₄ hrd hw,
    hout₁.trans (hf₂.outside.trans (hf₃.outside.trans (hout₄.trans (hw.outside hloc₄))))⟩

/-- The shift itself, and what it leaves. -/
theorem computes_shiftrr (op : ShiftOp) (size : OpSize) (Rd : FeReg) :
    Computes (feEnc64 (.shiftrr op size Rd .cx)) h Rd
      (shifted op size (h.reg Rd) (h.reg .cx)) :=
  computes_feEnc64 rfl rfl (writes_setReg ..).clobberFlags

/-- A shift by a register takes the low six bits of it. -/
theorem simulates_shiftReg {op : ShiftOp}
    (hval : ∀ a b, instr.aluResult a b = some (op.eval a (b.toNat % 64)))
    (hrs1 : instr.regSrc1 < 32) (hrs2 : instr.regSrc2 < 32) (hrd : instr.regDest < 32) :
    Simulates (shiftReg flags instr op) fun g => g.step instr :=
  simulates_shift op .s64 (f := id) hval hrs1 hrs2 hrd _ fun Rd _ => computes_shiftrr op .s64 Rd

/-- A shift in 32 bits by a register takes the low five bits of it. -/
theorem simulates_shiftRegW {op : ShiftOp}
    (hval : ∀ a b, instr.aluResult a b = some (sext32 (op.eval (a.setWidth 32) (b.toNat % 32))))
    (hrs1 : instr.regSrc1 < 32) (hrs2 : instr.regSrc2 < 32) (hrd : instr.regDest < 32) :
    Simulates (shiftRegW flags instr op) fun g => g.step instr := by
  refine simulates_shift op .s32 (f := fun v => sext32 (v.setWidth 32)) (fun a b => ?_) hrs1 hrs2
    hrd _ fun Rd _ => Computes.signExtend (computes_shiftrr op .s32 Rd)
  rw [hval]
  congr 2
  show _ = ((op.eval (a.setWidth 32) (b.toNat % 32)).setWidth 64).setWidth 32
  rw [BitVec.setWidth_setWidth_of_le _ (by decide), BitVec.setWidth_eq]

theorem simulates_SLL (hmnem : instr.mnem = .sll) (hrs1 : instr.regSrc1 < 32)
    (hrs2 : instr.regSrc2 < 32) (hrd : instr.regDest < 32) :
    Simulates (translateSLL flags instr) fun g => g.step instr := by
  refine simulates_shiftReg (fun a b => ?_) hrs1 hrs2 hrd
  unfold RiscInstr.aluResult
  rw [hmnem]
  rfl

theorem simulates_SRL (hmnem : instr.mnem = .srl) (hrs1 : instr.regSrc1 < 32)
    (hrs2 : instr.regSrc2 < 32) (hrd : instr.regDest < 32) :
    Simulates (translateSRL flags instr) fun g => g.step instr := by
  refine simulates_shiftReg (fun a b => ?_) hrs1 hrs2 hrd
  unfold RiscInstr.aluResult
  rw [hmnem]
  rfl

theorem simulates_SRA (hmnem : instr.mnem = .sra) (hrs1 : instr.regSrc1 < 32)
    (hrs2 : instr.regSrc2 < 32) (hrd : instr.regDest < 32) :
    Simulates (translateSRA flags instr) fun g => g.step instr := by
  refine simulates_shiftReg (fun a b => ?_) hrs1 hrs2 hrd
  unfold RiscInstr.aluResult
  rw [hmnem]
  rfl

theorem simulates_SLLW (hmnem : instr.mnem = .sllw) (hrs1 : instr.regSrc1 < 32)
    (hrs2 : instr.regSrc2 < 32) (hrd : instr.regDest < 32) :
    Simulates (translateSLLW flags instr) fun g => g.step instr := by
  refine simulates_shiftRegW (fun a b => ?_) hrs1 hrs2 hrd
  unfold RiscInstr.aluResult
  rw [hmnem]
  rfl

theorem simulates_SRLW (hmnem : instr.mnem = .srlw) (hrs1 : instr.regSrc1 < 32)
    (hrs2 : instr.regSrc2 < 32) (hrd : instr.regDest < 32) :
    Simulates (translateSRLW flags instr) fun g => g.step instr := by
  refine simulates_shiftRegW (fun a b => ?_) hrs1 hrs2 hrd
  unfold RiscInstr.aluResult
  rw [hmnem]
  rfl

theorem simulates_SRAW (hmnem : instr.mnem = .sraw) (hrs1 : instr.regSrc1 < 32)
    (hrs2 : instr.regSrc2 < 32) (hrd : instr.regDest < 32) :
    Simulates (translateSRAW flags instr) fun g => g.step instr := by
  refine simulates_shiftRegW (fun a b => ?_) hrs1 hrs2 hrd
  unfold RiscInstr.aluResult
  rw [hmnem]
  rfl

end RegisterShifts

/-! ## Loads and stores -/

section Memory

variable (flags : Flags) {instr : RiscInstr}

/-- A load writes what memory holds at the address. -/
theorem step_load {val : Memory → BitVec 64 → BitVec 64}
    (halu : ∀ a b, instr.aluResult a b = none)
    (hval : ∀ mem a, instr.loadResult mem a = some (val mem a)) (g : GuestState) :
    g.step instr = g.write instr.regDest (val g.mem (g.read instr.regSrc1 + instr.imm)) := by
  unfold GuestState.step
  simp only [halu, hval]

/-- A store writes to memory and to no register. -/
theorem step_store {size : MemSize} (halu : ∀ a b, instr.aluResult a b = none)
    (hload : ∀ mem a, instr.loadResult mem a = none) (hsize : instr.storeSize = some size)
    (g : GuestState) :
    g.step instr = { g with
      mem := g.mem.store size (g.read instr.regSrc1 + instr.imm) (g.read instr.regSrc2) } := by
  unfold GuestState.step
  simp only [halu, hload, hsize]

/-- A load, for each width and extension. -/
theorem simulates_load {load : FeReg → MemOp → FeInstr}
    (val : Memory → BitVec 64 → BitVec 64) (halu : ∀ a b, instr.aluResult a b = none)
    (hval : ∀ mem a, instr.loadResult mem a = some (val mem a)) (hrs1 : instr.regSrc1 < 32)
    (hrd : instr.regDest < 32) (himm : FeInstr.fitsInt32 instr.imm = true)
    (hload : ∀ Rd m h, (load Rd m).encodable = FeInstr.fitsInt32 m.off ∧
      (load Rd m).exec h = some (h.setReg Rd (val h.mem (h.addr m)))) :
    Simulates (translateLoad flags instr load) fun g => g.step instr := by
  refine (simulates_rs1_rd (fun mem a => val mem (a + instr.imm)) hrs1 hrd
    fun R1 Rd h => ?_).step (step_load halu hval)
  obtain ⟨henc, hexec⟩ := hload Rd (memAt R1 instr.imm) h
  rw [addr_memAt] at hexec
  exact computes_feEnc64 (henc.trans himm) hexec (writes_setReg ..)

/-- A store, for each width. -/
theorem simulates_store {size : MemSize} (halu : ∀ a b, instr.aluResult a b = none)
    (hload : ∀ mem a, instr.loadResult mem a = none) (hsize : instr.storeSize = some size)
    (hrs1 : instr.regSrc1 < 32) (hrs2 : instr.regSrc2 < 32)
    (himm : FeInstr.fitsInt32 instr.imm = true) :
    Simulates (translateStore flags instr size) fun g => g.step instr := by
  refine Simulates.step (fun g r h e hrep => ?_) (step_store halu hload hsize)
  obtain ⟨R1, r₁, h₁, hrun₁, hf₁, ho₁⟩ := getSrc_runs (e := e) flags hrep hrs1
  obtain ⟨R2, r₂, h₂, hrun₂, hf₂, ho₂⟩ := getSrc_runs (e := e) flags hf₁.rep hrs2
  have hval₁ : h₂.reg R1 = g.read instr.regSrc1 :=
    (hf₂.operands R1 _ 0 (Nat.zero_le 1) hrs1 ho₁).2
  have hexec : (FeInstr.movmr size (memAt R1 instr.imm) R2).exec h₂ = some { h₂ with
      mem := g.mem.store size (g.read instr.regSrc1 + instr.imm) (g.read instr.regSrc2) } := by
    show some { h₂ with mem := h₂.mem.store size (h₂.addr (memAt R1 instr.imm)) (h₂.reg R2) } = _
    rw [addr_memAt, hval₁, ho₂.2, hf₂.rep.mem]
  exact ⟨r₂, _, hrun₁.bind (hrun₂.bind (runs_feEnc64 himm hexec)), hf₂.rep.store _,
    hf₁.outside.trans (hf₂.outside.trans (Outside.of_mem h₂ _))⟩

theorem simulates_LB (hmnem : instr.mnem = .lb) (hrs1 : instr.regSrc1 < 32)
    (hrd : instr.regDest < 32) (himm : FeInstr.fitsInt32 instr.imm = true) :
    Simulates (translateLB flags instr) fun g => g.step instr := by
  refine simulates_load flags (fun mem => mem.loadSigned .m8) (fun a b => ?_)
    (fun mem a => ?_) hrs1 hrd
    himm fun _ _ _ => ⟨rfl, rfl⟩
  · unfold RiscInstr.aluResult
    rw [hmnem]
  · unfold RiscInstr.loadResult
    rw [hmnem]

theorem simulates_LH (hmnem : instr.mnem = .lh) (hrs1 : instr.regSrc1 < 32)
    (hrd : instr.regDest < 32) (himm : FeInstr.fitsInt32 instr.imm = true) :
    Simulates (translateLH flags instr) fun g => g.step instr := by
  refine simulates_load flags (fun mem => mem.loadSigned .m16) (fun a b => ?_)
    (fun mem a => ?_) hrs1 hrd
    himm fun _ _ _ => ⟨rfl, rfl⟩
  · unfold RiscInstr.aluResult
    rw [hmnem]
  · unfold RiscInstr.loadResult
    rw [hmnem]

/-- `LW` extends the sign of a word. -/
theorem simulates_LW (hmnem : instr.mnem = .lw) (hrs1 : instr.regSrc1 < 32)
    (hrd : instr.regDest < 32) (himm : FeInstr.fitsInt32 instr.imm = true) :
    Simulates (translateLW flags instr) fun g => g.step instr := by
  refine simulates_load flags (fun mem => mem.loadSigned .m32) (fun a b => ?_)
    (fun mem a => ?_) hrs1 hrd
    himm fun _ _ _ => ⟨rfl, rfl⟩
  · unfold RiscInstr.aluResult
    rw [hmnem]
  · unfold RiscInstr.loadResult
    rw [hmnem]

theorem simulates_LBU (hmnem : instr.mnem = .lbu) (hrs1 : instr.regSrc1 < 32)
    (hrd : instr.regDest < 32) (himm : FeInstr.fitsInt32 instr.imm = true) :
    Simulates (translateLBU flags instr) fun g => g.step instr := by
  refine simulates_load flags (fun mem => mem.load .m8) (fun a b => ?_) (fun mem a => ?_) hrs1 hrd
    himm fun _ _ _ => ⟨rfl, rfl⟩
  · unfold RiscInstr.aluResult
    rw [hmnem]
  · unfold RiscInstr.loadResult
    rw [hmnem]

theorem simulates_LHU (hmnem : instr.mnem = .lhu) (hrs1 : instr.regSrc1 < 32)
    (hrd : instr.regDest < 32) (himm : FeInstr.fitsInt32 instr.imm = true) :
    Simulates (translateLHU flags instr) fun g => g.step instr := by
  refine simulates_load flags (fun mem => mem.load .m16) (fun a b => ?_) (fun mem a => ?_) hrs1 hrd
    himm fun _ _ _ => ⟨rfl, rfl⟩
  · unfold RiscInstr.aluResult
    rw [hmnem]
  · unfold RiscInstr.loadResult
    rw [hmnem]

theorem simulates_LWU (hmnem : instr.mnem = .lwu) (hrs1 : instr.regSrc1 < 32)
    (hrd : instr.regDest < 32) (himm : FeInstr.fitsInt32 instr.imm = true) :
    Simulates (translateLWU flags instr) fun g => g.step instr := by
  refine simulates_load flags (fun mem => mem.load .m32) (fun a b => ?_) (fun mem a => ?_) hrs1 hrd
    himm fun _ _ _ => ⟨rfl, rfl⟩
  · unfold RiscInstr.aluResult
    rw [hmnem]
  · unfold RiscInstr.loadResult
    rw [hmnem]

/-- `LD` loads a doubleword. -/
theorem simulates_LD (hmnem : instr.mnem = .ld) (hrs1 : instr.regSrc1 < 32)
    (hrd : instr.regDest < 32) (himm : FeInstr.fitsInt32 instr.imm = true) :
    Simulates (translateLD flags instr) fun g => g.step instr := by
  refine simulates_load flags (fun mem => mem.load .m64) (fun a b => ?_) (fun mem a => ?_) hrs1 hrd
    himm fun _ _ _ => ⟨rfl, rfl⟩
  · unfold RiscInstr.aluResult
    rw [hmnem]
  · unfold RiscInstr.loadResult
    rw [hmnem]

theorem simulates_SB (hmnem : instr.mnem = .sb) (hrs1 : instr.regSrc1 < 32)
    (hrs2 : instr.regSrc2 < 32) (himm : FeInstr.fitsInt32 instr.imm = true) :
    Simulates (translateSB flags instr) fun g => g.step instr := by
  refine simulates_store flags (fun a b => ?_) (fun mem a => ?_) ?_ hrs1 hrs2 himm
  · unfold RiscInstr.aluResult
    rw [hmnem]
  · unfold RiscInstr.loadResult
    rw [hmnem]
  · unfold RiscInstr.storeSize
    rw [hmnem]

theorem simulates_SH (hmnem : instr.mnem = .sh) (hrs1 : instr.regSrc1 < 32)
    (hrs2 : instr.regSrc2 < 32) (himm : FeInstr.fitsInt32 instr.imm = true) :
    Simulates (translateSH flags instr) fun g => g.step instr := by
  refine simulates_store flags (fun a b => ?_) (fun mem a => ?_) ?_ hrs1 hrs2 himm
  · unfold RiscInstr.aluResult
    rw [hmnem]
  · unfold RiscInstr.loadResult
    rw [hmnem]
  · unfold RiscInstr.storeSize
    rw [hmnem]

/-- `SW` stores the low word. -/
theorem simulates_SW (hmnem : instr.mnem = .sw) (hrs1 : instr.regSrc1 < 32)
    (hrs2 : instr.regSrc2 < 32) (himm : FeInstr.fitsInt32 instr.imm = true) :
    Simulates (translateSW flags instr) fun g => g.step instr := by
  refine simulates_store flags (fun a b => ?_) (fun mem a => ?_) ?_ hrs1 hrs2 himm
  · unfold RiscInstr.aluResult
    rw [hmnem]
  · unfold RiscInstr.loadResult
    rw [hmnem]
  · unfold RiscInstr.storeSize
    rw [hmnem]

/-- `SD` stores a doubleword. -/
theorem simulates_SD (hmnem : instr.mnem = .sd) (hrs1 : instr.regSrc1 < 32)
    (hrs2 : instr.regSrc2 < 32) (himm : FeInstr.fitsInt32 instr.imm = true) :
    Simulates (translateSD flags instr) fun g => g.step instr := by
  refine simulates_store flags (fun a b => ?_) (fun mem a => ?_) ?_ hrs1 hrs2 himm
  · unfold RiscInstr.aluResult
    rw [hmnem]
  · unfold RiscInstr.loadResult
    rw [hmnem]
  · unfold RiscInstr.storeSize
    rw [hmnem]

end Memory

end RiaJit.Translate
