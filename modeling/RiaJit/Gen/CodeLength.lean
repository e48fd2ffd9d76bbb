import RiaJit.Gen.Translate

/-!
# How much is emitted

Bounds on the number of instructions that the helpers of `util.h` emit, and from them on the
code of a computation, a load or a store.
-/

set_option autoImplicit false

namespace RiaJit.Translate

open EmitLogic X86

variable (flags : Flags)

/-! ## The allocator -/

/-- One instruction is one at most, also if the assembler rejects it. -/
theorem bounded_feEnc64 (i : FeInstr) : Bounded 1 (feEnc64 i) :=
  .ite (.emit i) ((Bounded.modify _).mono (Nat.zero_le 1))

/-- A step that is left out emits nothing. -/
theorem bounded_onlyIf {c : Prop} [Decidable c] {n : Nat} {g : Gen Unit} (hg : Bounded n g) :
    Bounded n (onlyIf c g) :=
  .ite hg ((Bounded.ret ()).mono (Nat.zero_le n))

theorem bounded_getRInfo : Bounded 0 getRInfo := .bind .get fun _ => .ret _

theorem bounded_modifyRInfo (f : RegisterInfo → RegisterInfo) : Bounded 0 (modifyRInfo f) :=
  .modify _

/-- The profile counts with one instruction. -/
theorem bounded_recordGpProfiler (reg : Nat) : Bounded 1 (recordGpProfiler flags reg) :=
  bounded_onlyIf (bounded_feEnc64 _)

/-- Giving up a replacement stores it at most. -/
theorem bounded_invalidateReplacement (index : Fin 3) : Bounded 1 (invalidateReplacement index) :=
  .bind bounded_getRInfo fun _ =>
    .bind (bounded_onlyIf (bounded_feEnc64 _)) fun _ => bounded_modifyRInfo _

theorem bounded_loadValue (requested : Nat) (into : FeReg) : Bounded 1 (loadValue requested into) :=
  .ite (bounded_feEnc64 _) (bounded_feEnc64 _)

/-- A load into the oldest replacement stores that first. -/
theorem bounded_loadIntoReplacement (requested : Nat) (requireValue : Bool) :
    Bounded 2 (loadIntoReplacement requested requireValue) := by
  show Bounded (0 + (0 + 2)) _
  refine .bind (bounded_modifyRInfo _) fun _ => .bind bounded_getRInfo fun r => ?_
  cases r.find requested with
  | some i =>
      have hreuse : Bounded 1 (reuseReplacement requested i) :=
        .bind (bounded_modifyRInfo _) fun _ => .bind (bounded_onlyIf (bounded_feEnc64 _)) fun _ =>
          .ret _
      exact hreuse.mono (by omega)
  | none =>
      exact .bind bounded_getRInfo fun _ => .bind (bounded_onlyIf (bounded_feEnc64 _)) fun _ =>
        .bind (bounded_modifyRInfo _) fun _ => .bind
          (bounded_onlyIf (bounded_loadValue _ _)) fun _ =>
          .ret _

/-- A value that is in a replacement already is moved or exchanged. -/
theorem bounded_moveBetween (destination present : FeReg) (occupied requireValue : Bool) :
    Bounded 1 (moveBetween destination present occupied requireValue) :=
  .ite (bounded_feEnc64 _) (.ite (bounded_feEnc64 _) (bounded_onlyIf (bounded_feEnc64 _)))

theorem bounded_placeSpecific (candidate : Nat) (index : Fin 3) (requireValue : Bool)
    (present : Option (Fin 3)) :
    Bounded 2 (placeSpecific candidate index requireValue present) := by
  cases present with
  | some presentIndex =>
      refine Bounded.ite ?_ ?_
      · have hkeep : Bounded 1 (keepSpecific candidate index) :=
          .bind (bounded_onlyIf (bounded_feEnc64 _)) fun _ => bounded_modifyRInfo _
        exact hkeep.mono (by omega)
      · exact .bind bounded_getRInfo fun _ => .bind (bounded_moveBetween _ _ _ _) fun _ =>
          .bind (bounded_modifyRInfo _) fun _ => bounded_onlyIf (bounded_feEnc64 _)
  | none =>
      have hload : Bounded 1 (loadSpecific candidate (getRegForIndex index) requireValue) :=
        .ite (bounded_feEnc64 _) (bounded_onlyIf (bounded_feEnc64 _))
      exact .bind bounded_getRInfo fun _ => .bind (bounded_onlyIf (bounded_feEnc64 _)) fun _ =>
        .bind hload fun _ => bounded_modifyRInfo _

/-- A load into a certain replacement stores or exchanges first. -/
theorem bounded_loadIntoSpecific (candidate : Nat) (index : Fin 3) (requireValue : Bool) :
    Bounded 2 (loadIntoSpecific candidate index requireValue) :=
  .bind (bounded_modifyRInfo _) fun _ => .bind bounded_getRInfo fun _ =>
    .bind (bounded_placeSpecific _ _ _ _) fun _ => .ret _

/-- A destination is counted by the profile and takes a replacement. -/
theorem bounded_getRd (instr : RiscInstr) : Bounded 3 (getRd flags instr) := by
  show Bounded (1 + 2) _
  refine .bind (bounded_recordGpProfiler flags instr.regDest) fun _ => ?_
  cases gpMap instr.regDest with
  | none => exact bounded_loadIntoReplacement instr.regDest false
  | some mapped => exact (Bounded.ret mapped).mono (Nat.zero_le 2)

/-- The same for a source that has to lie in a certain one. -/
theorem bounded_getSrcInto (reg : Nat) (into : Fin 3) : Bounded 3 (getSrcInto flags reg into) := by
  show Bounded (1 + 2) _
  refine .bind (bounded_recordGpProfiler flags reg) fun _ => ?_
  cases gpMap reg with
  | none => exact bounded_loadIntoSpecific reg into true
  | some mapped =>
      refine Bounded.ite ((Bounded.ret mapped).mono (Nat.zero_le 2)) ?_
      exact .bind (bounded_invalidateReplacement into) fun _ => .bind (bounded_feEnc64 _) fun _ =>
        .bind (bounded_modifyRInfo _) fun _ => .bind (bounded_modifyRInfo _) fun _ => .ret _

/-- A source is counted by the profile and loaded into a replacement. -/
theorem bounded_getSrc (reg : Nat) : Bounded 3 (getSrc flags reg) := by
  show Bounded (1 + 2) _
  refine .bind (bounded_recordGpProfiler flags reg) fun _ => ?_
  cases gpMap reg with
  | none => exact bounded_loadIntoReplacement reg true
  | some mapped => exact (Bounded.ret mapped).mono (Nat.zero_le 2)

/-- There are three replacements to be stored. -/
theorem bounded_invalidateAll : Bounded 3 invalidateAllReplacements :=
  .bind (bounded_invalidateReplacement 0) fun _ =>
    .bind (bounded_invalidateReplacement 1) fun _ => bounded_invalidateReplacement 2

/-- A commutative operation is a move and an operation. -/
theorem bounded_doArithmCommutative (R1 R2 Rd : FeReg) (op : AluOp) (size : OpSize) :
    Bounded 2 (doArithmCommutative R1 R2 Rd op size) := by
  have hone : ∀ i, Bounded 2 (feEnc64 i) := fun i => (bounded_feEnc64 i).mono (by decide)
  exact .ite (hone _) (.ite (hone _) (.bind (bounded_feEnc64 _) fun _ => bounded_feEnc64 _))

/-! ## Computations, loads and stores -/

section Emitters

variable {flags : Flags} {instr : RiscInstr}

/-- The instructions that one entry of a block without control flow takes at most. -/
def maxEmitted : Nat := 15

/-- An operation on `rs1` and `rd`. -/
theorem bounded_source_rd {k : FeReg → FeReg → Gen Unit} (hk : ∀ R1 Rd, Bounded 9 (k R1 Rd)) :
    Bounded maxEmitted (do
      let R1 ← getRs1 flags instr
      let Rd ← getRd flags instr
      k R1 Rd) :=
  .bind (bounded_getSrc flags _) fun R1 => .bind (bounded_getRd flags _) fun Rd => hk R1 Rd

/-- An operation on `rs1`, `rs2` and `rd`. -/
theorem bounded_sources_rd {k : FeReg → FeReg → FeReg → Gen Unit}
    (hk : ∀ R1 R2 Rd, Bounded 6 (k R1 R2 Rd)) :
    Bounded maxEmitted (do
      let R1 ← getRs1 flags instr
      let R2 ← getRs2 flags instr
      let Rd ← getRd flags instr
      k R1 R2 Rd) :=
  .bind (bounded_getSrc flags _) fun R1 => .bind (bounded_getSrc flags _) fun R2 =>
    .bind (bounded_getRd flags _) fun Rd => hk R1 R2 Rd

theorem bounded_moveUnlessSame (size : OpSize) (Rd R1 : FeReg) :
    Bounded 1 (moveUnlessSame size Rd R1) :=
  bounded_onlyIf (bounded_feEnc64 _)

/-- A sum with an immediate is one instruction. -/
theorem bounded_addImm (size : OpSize) (R1 Rd : FeReg) : Bounded 1 (addImm instr size R1 Rd) :=
  .ite (bounded_feEnc64 _) (bounded_onlyIf (bounded_feEnc64 _))

theorem bounded_shiftLeftImm (size : OpSize) (R1 Rd : FeReg) :
    Bounded 2 (shiftLeftImm instr size R1 Rd) :=
  .ite ((bounded_feEnc64 _).mono (by decide))
    (.bind (bounded_moveUnlessSame size Rd R1) fun _ => bounded_feEnc64 _)

theorem bounded_addReg (size : OpSize) (R1 R2 Rd : FeReg) : Bounded 2 (addReg size R1 R2 Rd) :=
  .ite ((Bounded.emit _).mono (by decide)) (bounded_doArithmCommutative R1 R2 Rd .add size)

/-- A difference is two instructions, whichever register it goes to. -/
theorem bounded_subReg (size : OpSize) (R1 R2 Rd : FeReg) : Bounded 2 (subReg size R1 R2 Rd) :=
  .ite (.ite ((bounded_feEnc64 _).mono (by decide))
      (.bind (bounded_feEnc64 _) fun _ => bounded_feEnc64 _))
    (bounded_doArithmCommutative R1 R2 Rd .sub size)

/-- A bitwise operation with an immediate. -/
theorem bounded_logicImm (op : AluOp) : Bounded maxEmitted (logicImm flags instr op) :=
  bounded_source_rd fun R1 Rd => Bounded.mono (n := 2)
    (.bind (bounded_moveUnlessSame .s64 Rd R1) fun _ => bounded_feEnc64 _) (by decide)

theorem bounded_setImm (cond : Cond) : Bounded maxEmitted (setImm flags instr cond) :=
  bounded_source_rd fun _ _ => Bounded.mono (n := 3)
    (.bind (bounded_feEnc64 _) fun _ => .bind (bounded_feEnc64 _) fun _ => bounded_feEnc64 _)
    (by decide)

theorem bounded_shiftRightImm (op : ShiftOp) : Bounded maxEmitted (shiftRightImm flags instr op) :=
  bounded_source_rd fun R1 Rd => Bounded.mono (n := 2)
    (.bind (bounded_moveUnlessSame .s64 Rd R1) fun _ => bounded_feEnc64 _) (by decide)

theorem bounded_shiftRightImmW (op : ShiftOp) :
    Bounded maxEmitted (shiftRightImmW flags instr op) :=
  bounded_source_rd fun R1 Rd => Bounded.mono (n := 3)
    (.bind (bounded_moveUnlessSame .s32 Rd R1) fun _ =>
      .bind (bounded_feEnc64 _) fun _ => bounded_feEnc64 _) (by decide)

theorem bounded_logicReg (op : AluOp) : Bounded maxEmitted (logicReg flags instr op) :=
  bounded_sources_rd fun R1 R2 Rd =>
    (bounded_doArithmCommutative R1 R2 Rd op .s64).mono (by decide)

/-- A comparison of two registers. -/
theorem bounded_setReg (cond : Cond) : Bounded maxEmitted (setReg flags instr cond) :=
  bounded_sources_rd fun _ _ _ => Bounded.mono (n := 3)
    (.bind (bounded_feEnc64 _) fun _ => .bind (bounded_feEnc64 _) fun _ => bounded_feEnc64 _)
    (by decide)

/-- A shift with its count in `rcx`. -/
theorem bounded_shiftDest (size : OpSize) (R1 R2 Rd : FeReg) :
    Bounded 4 (shiftDest instr size R1 R2 Rd) := by
  have hrelocate : Bounded 3 (relocateDest instr R1) :=
    .ite (.bind (bounded_invalidateReplacement 1) fun _ => bounded_loadIntoSpecific _ _ _)
      (.bind (bounded_invalidateReplacement 0) fun _ => bounded_loadIntoSpecific _ _ _)
  have hbesides : Bounded 3 (destBesides instr R1 R2 Rd) :=
    .ite hrelocate ((Bounded.ret Rd).mono (Nat.zero_le 3))
  exact .ite (.bind hbesides fun _ => .bind (bounded_feEnc64 _) fun _ => .ret _)
    ((Bounded.ret Rd).mono (Nat.zero_le 4))

theorem bounded_shiftReg (op : ShiftOp) : Bounded maxEmitted (shiftReg flags instr op) :=
  Bounded.mono (n := 3 + (3 + (3 + (4 + 1))))
    (.bind (bounded_getSrcInto flags _ 2) fun R2 => .bind (bounded_getSrc flags _) fun R1 =>
      .bind (bounded_getRd flags _) fun Rd =>
        .bind (bounded_shiftDest .s64 R1 R2 Rd) fun _ => bounded_feEnc64 _) (by decide)

theorem bounded_shiftRegW (op : ShiftOp) : Bounded maxEmitted (shiftRegW flags instr op) :=
  .bind (bounded_getSrcInto flags _ 2) fun R2 => .bind (bounded_getSrc flags _) fun R1 =>
    .bind (bounded_getRd flags _) fun Rd => .bind (bounded_shiftDest .s32 R1 R2 Rd) fun _ =>
      .bind (bounded_feEnc64 _) fun _ => bounded_feEnc64 _

/-- A load. -/
theorem bounded_translateLoad (load : FeReg → MemOp → FeInstr) :
    Bounded maxEmitted (translateLoad flags instr load) :=
  bounded_source_rd fun _ _ => (bounded_feEnc64 _).mono (by decide)

/-- A store. -/
theorem bounded_translateStore (size : MemSize) :
    Bounded maxEmitted (translateStore flags instr size) :=
  Bounded.mono (n := 3 + (3 + 1)) (.bind (bounded_getSrc flags _) fun _ =>
    .bind (bounded_getSrc flags _) fun _ => bounded_feEnc64 _) (by decide)

variable (flags instr) in
/-- What the emitters of computations, loads and stores append is short. -/
theorem bounded_coreEmitter {mnem : RiscMnem} {emitter : Flags → RiscInstr → Gen Unit}
    (hem : coreEmitter mnem = some emitter) : Bounded maxEmitted (emitter flags instr) := by
  have hextended : ∀ {g : Gen Unit} {i : FeInstr}, Bounded 2 g →
      Bounded 6 (g >>= fun _ => feEnc64 i) := fun hg =>
    Bounded.mono (n := 3) (hg.bind fun _ => bounded_feEnc64 _) (by decide)
  -- the bound of each emitter is a sum over its steps, weakened to `maxEmitted` at the end
  cases mnem with
  | lui =>
      obtain rfl := Option.some.inj hem
      exact Bounded.mono (n := 4) (.bind (bounded_getRd flags _) fun _ => bounded_feEnc64 _)
        (by decide)
  | auipc =>
      obtain rfl := Option.some.inj hem
      exact bounded_onlyIf (Bounded.mono (n := 4)
        (.bind (bounded_getRd flags _) fun _ => bounded_feEnc64 _) (by decide))
  | addi =>
      obtain rfl := Option.some.inj hem
      exact bounded_source_rd fun R1 Rd => (bounded_addImm .s64 R1 Rd).mono (by decide)
  | addiw =>
      obtain rfl := Option.some.inj hem
      exact bounded_source_rd fun R1 Rd =>
        (hextended ((bounded_addImm .s32 R1 Rd).mono (by decide))).mono (by decide)
  | andi =>
      obtain rfl := Option.some.inj hem
      exact bounded_source_rd fun R1 Rd => Bounded.mono (n := 2)
        (.bind (bounded_moveUnlessSame _ Rd R1) fun _ => bounded_feEnc64 _) (by decide)
  | slli =>
      obtain rfl := Option.some.inj hem
      exact bounded_source_rd fun R1 Rd => (bounded_shiftLeftImm .s64 R1 Rd).mono (by decide)
  | slliw =>
      obtain rfl := Option.some.inj hem
      exact bounded_source_rd fun R1 Rd =>
        (hextended (bounded_shiftLeftImm .s32 R1 Rd)).mono (by decide)
  | add =>
      obtain rfl := Option.some.inj hem
      exact bounded_sources_rd fun R1 R2 Rd => (bounded_addReg .s64 R1 R2 Rd).mono (by decide)
  | addw =>
      obtain rfl := Option.some.inj hem
      exact bounded_sources_rd fun R1 R2 Rd => hextended (bounded_addReg .s32 R1 R2 Rd)
  | sub =>
      obtain rfl := Option.some.inj hem
      exact bounded_sources_rd fun R1 R2 Rd => (bounded_subReg .s64 R1 R2 Rd).mono (by decide)
  | subw =>
      obtain rfl := Option.some.inj hem
      exact bounded_sources_rd fun R1 R2 Rd => hextended (bounded_subReg .s32 R1 R2 Rd)
  | xori | ori =>
      obtain rfl := Option.some.inj hem
      exact bounded_logicImm _
  | slti | sltiu =>
      obtain rfl := Option.some.inj hem
      exact bounded_setImm _
  | srli | srai =>
      obtain rfl := Option.some.inj hem
      exact bounded_shiftRightImm _
  | srliw | sraiw =>
      obtain rfl := Option.some.inj hem
      exact bounded_shiftRightImmW _
  | xor | or | and =>
      obtain rfl := Option.some.inj hem
      exact bounded_logicReg _
  | slt | sltu =>
      obtain rfl := Option.some.inj hem
      exact bounded_setReg _
  | sll | srl | sra =>
      obtain rfl := Option.some.inj hem
      exact bounded_shiftReg _
  | sllw | srlw | sraw =>
      obtain rfl := Option.some.inj hem
      exact bounded_shiftRegW _
  | lb | lh | lw | lbu | lhu | lwu | ld =>
      obtain rfl := Option.some.inj hem
      exact bounded_translateLoad _
  | sb | sh | sw | sd =>
      obtain rfl := Option.some.inj hem
      exact bounded_translateStore _
  | _ => cases hem

end Emitters

end RiaJit.Translate
