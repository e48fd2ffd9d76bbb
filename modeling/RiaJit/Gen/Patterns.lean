import RiaJit.Gen.IncrementFusion

/-!
# The emitters of the patterns

`gen/instr/patterns.c`: what is emitted for the matches of the table. An emitter takes
the instructions of the match, of which some have fields that it does not look at.
-/

set_option autoImplicit false

namespace RiaJit.Translate

open EmitLogic X86

/-! ## Addresses and constants -/

section Fusions

variable (flags : Flags)

/-- `emit_pattern_3`. -/
def emitPattern3 (auipc addi : RiscInstr) : Gen Unit :=
  onlyIf (addi.regDest ≠ x0) do
    let regDest ← getRd flags addi
    feEnc64 (.mov64ri regDest (auipc.addr + auipc.imm + addi.imm))

/-- A load whose address is put into a replacement that is emptied for it. -/
def loadThrough (load : FeReg → MemOp → FeInstr) (addr : BitVec 64) (scratch : Fin 3)
    (regDest : FeReg) : Gen Unit := do
  invalidateReplacement scratch
  feEnc64 (.mov64ri (getRegForIndex scratch) addr)
  feEnc64 (load regDest (memAt (getRegForIndex scratch) 0#64))

/-- `emit_pattern_4` and `emit_pattern_5`, which differ in the load. -/
def loadAbsolute (load : FeReg → MemOp → FeInstr) (auipc access : RiscInstr) : Gen Unit :=
  let addr := auipc.addr + auipc.imm + access.imm
  match gpMap access.regDest with
  | some mapped =>
      if FeInstr.fitsInt32 addr then feEnc64 (load mapped ⟨none, none, addr⟩)
      else loadThrough load addr 0 mapped
  | none => do
      let regDest ← getRd flags access
      if FeInstr.fitsInt32 addr then feEnc64 (load regDest ⟨none, none, addr⟩)
      else if regDest ≠ .ax then loadThrough load addr 0 regDest
      else loadThrough load addr 2 regDest

/-- `emit_pattern_4`. -/
def emitPattern4 (auipc lw : RiscInstr) : Gen Unit := loadAbsolute flags (.movsxm .m32) auipc lw

/-- `emit_pattern_5`. -/
def emitPattern5 (auipc ld : RiscInstr) : Gen Unit := loadAbsolute flags (.movrm .m64) auipc ld

/-- `emit_pattern_6`. -/
def emitPattern6 (slli srli : RiscInstr) : Gen Unit :=
  match gpMap slli.regSrc1, gpMap srli.regDest with
  | some source, some dest => feEnc64 (.movrr .s32 dest source)
  | some source, none => do
      let regDest ← getRd flags srli
      feEnc64 (.movrr .s32 regDest source)
  | none, some dest => do
      let regSrc1 ← getRs1 flags slli
      feEnc64 (.movrr .s32 dest regSrc1)
  | none, none => do
      let regSrc1 ← getRs1 flags slli
      let regDest ← getRd flags srli
      feEnc64 (.movrr .s32 regDest regSrc1)

/-- `emit_pattern_7`, for the first of the three instructions. -/
def emitPattern7 (addiw : RiscInstr) : Gen Unit := do
  let regSrc1 ← getRs1 flags addiw
  let regDest ← getRd flags addiw
  moveUnlessSame .s32 regDest regSrc1
  feEnc64 (.aluri .add .s32 regDest addiw.imm)

/-- `emit_pattern_9`; the second instruction is not looked at. -/
def emitPattern9 (lui slli srli : RiscInstr) : Gen Unit := do
  let regDest ← getRd flags lui
  feEnc64 (.mov64ri regDest lui.imm)
  emitPattern6 flags slli srli

/-- `emit_pattern_19_LI`. -/
def emitPattern19LI (lui addi : RiscInstr) : Gen Unit := do
  let regDest ← getRd flags lui
  feEnc64 (.mov64ri regDest (lui.imm + addi.imm))

/-- The shift of `emit_pattern_21`, after the register was zero extended. -/
def shiftExtended (imm : BitVec 64) (regDest : FeReg) : Gen Unit :=
  if imm.slt 32#64 then feEnc64 (.shiftri .shl .s64 regDest (32#64 - imm))
  else feEnc64 (.shiftri .shr .s32 regDest (imm - 32#64))

/-- `emit_pattern_21`. -/
def emitPattern21 (slli srli : RiscInstr) : Gen Unit := do
  let regSrc1 ← getRs1 flags slli
  let regDest ← getRd flags slli
  feEnc64 (.movrr .s32 regDest regSrc1)
  shiftExtended srli.imm regDest

/-- The addition of `emit_pattern_23`. -/
def addByte (imm : BitVec 64) (regSrc1 regDest : FeReg) : Gen Unit :=
  if regSrc1 ≠ regDest then feEnc64 (.lea .s32 regDest (memAt regSrc1 imm))
  else feEnc64 (.aluri .add .s32 regDest imm)

/-- `emit_pattern_23`, for the first of the two instructions. -/
def emitPattern23 (addiw : RiscInstr) : Gen Unit := do
  let regSrc1 ← getRs1 flags addiw
  let regDest ← getRd flags addiw
  addByte addiw.imm regSrc1 regDest
  feEnc64 (.movzxr32r8 regDest regDest)

end Fusions

/-! ## Single instructions -/

section Singles

variable (flags : Flags) (instr : RiscInstr)

/-- `emit_pattern_8_SEXTW`, which works on the register file where a register is not mapped. -/
def emitPattern8SEXTW : Gen Unit := do
  invalidateAllReplacements
  match gpMap instr.regSrc1, gpMap instr.regDest with
  | some source, some dest => feEnc64 (.movsxr64r32 dest source)
  | some source, none => do
      feEnc64 (.movsxr64r32 .ax source)
      feEnc64 (.mov64mrCell (.gp instr.regDest) .ax)
  | none, some dest => feEnc64 (.movsxr64m32Cell dest (.gp instr.regSrc1))
  | none, none => do
      feEnc64 (.movsxr64m32Cell .ax (.gp instr.regSrc1))
      feEnc64 (.mov64mrCell (.gp instr.regDest) .ax)

/-- `emit_pattern_10_NOP`. -/
def emitPattern10NOP : Gen Unit := feEnc64 .nop

/-- `emit_pattern_11_MV`. -/
def emitPattern11MV : Gen Unit :=
  if instr.regSrc1 ≠ x0 then do
    let regSrc1 ← getRs1 flags instr
    let regDest ← getRd flags instr
    moveUnlessSame .s64 regDest regSrc1
  else do
    let regDest ← getRd flags instr
    feEnc64 (.alurr .xor .s32 regDest regDest)

/-- `emit_pattern_12_NOT`. -/
def emitPattern12NOT : Gen Unit := do
  let regSrc1 ← getRs1 flags instr
  let regDest ← getRd flags instr
  moveUnlessSame .s64 regDest regSrc1
  feEnc64 (.not64r regDest)

/-- `emit_pattern_13_NEG`. -/
def emitPattern13NEG : Gen Unit := do
  let regSrc2 ← getRs2 flags instr
  let regDest ← getRd flags instr
  moveUnlessSame .s64 regDest regSrc2
  feEnc64 (.neg .s64 regDest)

/-- `emit_pattern_14_NEGW`. -/
def emitPattern14NEGW : Gen Unit := do
  let regSrc2 ← getRs2 flags instr
  let regDest ← getRd flags instr
  moveUnlessSame .s32 regDest regSrc2
  feEnc64 (.neg .s32 regDest)
  feEnc64 (.movsxr64r32 regDest regDest)

/-- A comparison of a register with zero. -/
def setZeroTest (cond : Cond) (regSrc regDest : FeReg) : Gen Unit := do
  feEnc64 (.test64rr regSrc regSrc)
  feEnc64 (.set8r cond regDest)
  feEnc64 (.movzxr32r8 regDest regDest)

/-- `emit_pattern_15_SEQZ`. -/
def emitPattern15SEQZ : Gen Unit := do
  let regSrc1 ← getRs1 flags instr
  let regDest ← getRd flags instr
  setZeroTest .z regSrc1 regDest

/-- `emit_pattern_16_SNEZ`. -/
def emitPattern16SNEZ : Gen Unit := do
  let regSrc2 ← getRs2 flags instr
  let regDest ← getRd flags instr
  setZeroTest .nz regSrc2 regDest

/-- A call of the encoder that gives a number where the mnemonic has a register: it is rejected. -/
def feEnc64NoRegister : Gen Unit := Gen.modify fun s => { s with err := true }

/-- `emit_pattern_17_SLTZ`; its shift is `fe_enc64(&current, FE_SHR64ri, 63)`. -/
def emitPattern17SLTZ : Gen Unit := do
  let regSrc1 ← getRs1 flags instr
  let regDest ← getRd flags instr
  moveUnlessSame .s64 regDest regSrc1
  feEnc64NoRegister

/-- `emit_pattern_18_SGTZ`. -/
def emitPattern18SGTZ : Gen Unit := do
  let regSrc2 ← getRs2 flags instr
  let regDest ← getRd flags instr
  setZeroTest .g regSrc2 regDest

/-- `emit_pattern_20_small_LI`. -/
def emitPattern20SmallLI : Gen Unit := do
  let regDest ← getRd flags instr
  feEnc64 (.mov64ri regDest instr.imm)

/-- `emit_pattern_22`. -/
def emitPattern22 : Gen Unit := do
  let regSrc1 ← getRs1 flags instr
  let regDest ← getRd flags instr
  feEnc64 (.movzxr32r8 regDest regSrc1)

end Singles

/-! ## The calls of `translate_pattern_emit` -/

/-- The emitter of a pattern, on the instructions of a match. `emit_pattern_0` is behind the entry
that stops the matcher. -/
def emitPattern (flags : Flags) : PatternEmitter → List RiscInstr → Option (Gen Unit)
  | .emitPattern2, [auipc, addi, lw, addiw, _] => some (emitPattern2 auipc addi lw addiw)
  | .emitPattern3, [auipc, addi] => some (emitPattern3 flags auipc addi)
  | .emitPattern4, [auipc, lw] => some (emitPattern4 flags auipc lw)
  | .emitPattern5, [auipc, ld] => some (emitPattern5 flags auipc ld)
  | .emitPattern6, [slli, srli] => some (emitPattern6 flags slli srli)
  | .emitPattern7, [addiw, _, _] => some (emitPattern7 flags addiw)
  | .emitPattern8SEXTW, [instr] => some (emitPattern8SEXTW instr)
  | .emitPattern9, [lui, _, slli, srli] => some (emitPattern9 flags lui slli srli)
  | .emitPattern10NOP, [_] => some emitPattern10NOP
  | .emitPattern11MV, [instr] => some (emitPattern11MV flags instr)
  | .emitPattern12NOT, [instr] => some (emitPattern12NOT flags instr)
  | .emitPattern13NEG, [instr] => some (emitPattern13NEG flags instr)
  | .emitPattern14NEGW, [instr] => some (emitPattern14NEGW flags instr)
  | .emitPattern15SEQZ, [instr] => some (emitPattern15SEQZ flags instr)
  | .emitPattern16SNEZ, [instr] => some (emitPattern16SNEZ flags instr)
  | .emitPattern17SLTZ, [instr] => some (emitPattern17SLTZ flags instr)
  | .emitPattern18SGTZ, [instr] => some (emitPattern18SGTZ flags instr)
  | .emitPattern19LI, [lui, addi] => some (emitPattern19LI flags lui addi)
  | .emitPattern20SmallLI, [instr] => some (emitPattern20SmallLI flags instr)
  | .emitPattern21, [slli, srli] => some (emitPattern21 flags slli srli)
  | .emitPattern22, [instr] => some (emitPattern22 flags instr)
  | .emitPattern23, [addiw, _] => some (emitPattern23 flags addiw)
  | _, _ => none

/-! ## The instructions of a match -/

section Window

variable {block : List RiscInstr} {p : Pattern} {e : PatternElement} {j k : Nat}

/-- The instructions of a match that starts at `j`. -/
def window (block : List RiscInstr) (p : Pattern) (j : Nat) : List RiscInstr :=
  (block.drop j).take p.len

theorem window_getElem? (hk : k < p.len) : (window block p j)[k]? = block[j + k]? := by
  unfold window
  rw [List.getElem?_take_of_lt hk, List.getElem?_drop]

theorem matchElement_window (hwf : p.WellFormed) (he : e ∈ p.elements) (hk : k < p.len)
    (h : matchElement block j e k = some true) :
      matchElement (window block p j) 0 e k = some true := by
  have hdest : ∀ reg i, i < p.len →
      isDestOf (window block p j) reg (0 + i) = isDestOf block reg (j + i) := by
    intro reg i hi
    unfold isDestOf
    rw [Nat.zero_add, window_getElem? hi]
  have hh1 := hwf.h1 e he
  have hh2 := hwf.h2 e he
  obtain ⟨own, hown, hmnem, hrs1, hrs2, hrd, himm⟩ := matchElement_eq_true.1 h
  -- each test reads an entry within the window
  refine matchElement_eq_true.2 ⟨own, ?_, hmnem, ?_, ?_, ?_, ?_⟩
  · rwa [Nat.zero_add, window_getElem? hk]
  · rw [← hrs1]
    unfold matchRs1
    rw [hdest _ _ hh1, hdest _ _ hh2]
  · rw [← hrs2]
    unfold matchRs2
    rw [hdest _ _ hh1, hdest _ _ hh2]
  · rw [← hrd]
    unfold matchRd
    rw [hdest _ _ hh1, hdest _ _ hh2, Nat.zero_add, window_getElem? hh1]
  · rw [← himm]
    unfold matchImm
    split
    · rfl
    · rfl
    · rename_i htwo
      obtain ⟨hlo, hhi⟩ := hwf.imm e he htwo
      rw [show ((0 : Nat) + e.immValue : Int).toNat = e.immValue.toNat by omega,
        show ((j : Int) + e.immValue).toNat = j + e.immValue.toNat by omega,
        window_getElem? (by omega)]
    · rfl

/-- A match depends on its own instructions only. -/
theorem Occurs.within (hwf : p.WellFormed) (h : Occurs block p j) :
    Occurs (window block p j) p 0 := by
  have hall : ∀ es k, (∀ e ∈ es, e ∈ p.elements) → k + es.length ≤ p.len →
      matchElements block j es k = some true →
      matchElements (window block p j) 0 es k = some true := by
    intro es
    induction es with
    | nil => exact fun _ _ _ _ => rfl
    | cons e es ih =>
        intro k hmem hlen hmatch
        rw [List.length_cons] at hlen
        obtain ⟨hhead, htail⟩ := andAlso_eq_true.1 hmatch
        exact andAlso_eq_true.2
          ⟨matchElement_window hwf (hmem e List.mem_cons_self) (by omega) hhead,
            ih (k + 1) (fun e he => hmem e (List.mem_cons_of_mem _ he)) (by omega) htail⟩
  refine hall _ 0 (fun e he => List.mem_of_mem_take he) ?_ h
  rw [List.length_take, hwf.len]
  omega

theorem Occurs.within_length (hwf : p.WellFormed) (h : Occurs block p j) :
    (window block p j).length = p.len := by
  have hlast := h.mnem hwf (k := p.len - 1) (by have := hwf.pos; omega)
  have hpos := hwf.pos
  rw [List.getElem?_eq_getElem (l := p.elements) (by rw [hwf.len]; omega), Option.map_some] at hlast
  obtain ⟨last, hsome, -⟩ := Option.map_eq_some_iff.1 hlast
  obtain ⟨hlt, -⟩ := List.getElem?_eq_some_iff.1 hsome
  unfold window
  rw [List.length_take, List.length_drop]
  omega

end Window

end RiaJit.Translate
