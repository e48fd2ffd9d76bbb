import RiaJit.Gen.Computation

/-!
# The slot of `x0`

The register file has a slot for `x0`. The helpers that load replacements do not store
there, and what they emit reads it nowhere: `x0` is loaded by zeroing.
-/

set_option autoImplicit false

namespace RiaJit

open EmitLogic X86

namespace X86.FeInstr

/-- The variable of the translator that an instruction writes. -/
def writtenCell : FeInstr → Option Cell
  | .mov64mrCell dst _ | .mov32mrCell dst _ | .mov64miCell dst _ | .mov32miCell dst _
  | .inc64mCell dst | .alu64mrCell _ dst _ | .alu64miCell _ dst _ => some dst
  | _ => none

theorem setCell_of_ne {h : HostState} {c d : Cell} (hne : some d ≠ some c) (v : BitVec 64) :
    (h.setCell d v).cell c = h.cell c :=
  Function.update_of_ne (fun heq => hne (by rw [heq])) ..

/-- Other variables are left alone. -/
theorem exec_cell {i : FeInstr} {h h' : HostState} {c : Cell} (hexec : i.exec h = some h')
    (hc : i.writtenCell ≠ some c) : h'.cell c = h.cell c := by
  cases i with
  -- the instructions that write a variable
  | mov64mrCell dst src =>
      obtain rfl := Option.some.inj hexec
      exact setCell_of_ne hc _
  | mov32mrCell dst src =>
      obtain rfl := Option.some.inj hexec
      exact setCell_of_ne hc _
  | mov64miCell dst imm =>
      obtain rfl := Option.some.inj hexec
      exact setCell_of_ne hc _
  | mov32miCell dst imm =>
      obtain rfl := Option.some.inj hexec
      exact setCell_of_ne hc _
  | inc64mCell dst =>
      obtain rfl := Option.some.inj hexec
      exact setCell_of_ne hc _
  | alu64mrCell op dst src =>
      obtain rfl := Option.some.inj hexec
      exact setCell_of_ne hc _
  | alu64miCell op dst imm =>
      obtain rfl := Option.some.inj hexec
      exact setCell_of_ne hc _
  -- the instructions that can fault: undefined flags, a division, an empty stack
  | set8r cond dst =>
      obtain ⟨flags, -, rfl⟩ := Option.map_eq_some_iff.1 hexec
      rfl
  | cmovrr cond size dst src =>
      obtain ⟨flags, -, rfl⟩ := Option.map_eq_some_iff.1 hexec
      rfl
  | cSep size =>
      cases size with
      | s32 =>
          obtain rfl := Option.some.inj hexec
          rfl
      | s64 =>
          obtain rfl := Option.some.inj hexec
          rfl
  | idivr size src =>
      cases size with
      | s32 =>
          obtain ⟨result, -, rfl⟩ := Option.map_eq_some_iff.1 hexec
          rfl
      | s64 =>
          obtain ⟨result, -, rfl⟩ := Option.map_eq_some_iff.1 hexec
          rfl
  | divr size src =>
      cases size with
      | s32 =>
          obtain ⟨result, -, rfl⟩ := Option.map_eq_some_iff.1 hexec
          rfl
      | s64 =>
          obtain ⟨result, -, rfl⟩ := Option.map_eq_some_iff.1 hexec
          rfl
  | pop dst =>
      cases hstack : h.stack with
      | nil =>
          simp only [FeInstr.exec, hstack] at hexec
          cases hexec
      | cons v stack =>
          simp only [FeInstr.exec, hstack] at hexec
          rw [← Option.some.inj hexec]
          rfl
  -- the instructions that are not straight-line code
  | leaRip dst => cases hexec
  | jmp long target => cases hexec
  | jcc long cond target => cases hexec
  | jmpr src => cases hexec
  | call fn => cases hexec
  | ret => cases hexec
  | _ =>
      obtain rfl := Option.some.inj hexec
      rfl

/-- A cell that no instruction writes keeps its value. -/
theorem runCode_cell {c : Cell} {code : List FeInstr} {h h' : HostState}
    (hcode : ∀ i ∈ code, i.writtenCell ≠ some c) (hrun : runCode FeInstr.exec code h = some h') :
    h'.cell c = h.cell c := by
  induction code generalizing h with
  | nil => rw [← Option.some.inj hrun]
  | cons i code ih =>
      obtain ⟨h₁, hexec, hrest⟩ := Option.bind_eq_some_iff.1 hrun
      rw [ih (fun i hi => hcode i (List.mem_cons_of_mem _ hi)) hrest]
      exact exec_cell hexec (hcode i List.mem_cons_self)

end X86.FeInstr

namespace Translate

/-! ## Generators that do not store there -/

/-- The code of a generator leaves the slot of `x0` alone. -/
def KeepsZeroSlot {α : Type} (gen : Gen α) : Prop :=
  Emits (fun _ => True) (fun i => i.writtenCell ≠ some (.gp x0)) gen fun _ _ => True

section

variable {α β : Type}

/-- Running such code leaves the slot of the zero register alone. -/
theorem KeepsZeroSlot.runs {gen : Gen α} (hk : KeepsZeroSlot gen) {s s' : GenState}
    {h h' : HostState} {a : α} (hrun : RunsOn gen s h a s' h') :
    h'.cell (.gp x0) = h.cell (.gp x0) := by
  obtain ⟨code, hgen, hcode⟩ := hrun
  refine FeInstr.runCode_cell (fun i hi => (hk s trivial).1 i ?_) hcode
  rw [hgen]
  exact hi

theorem KeepsZeroSlot.ret (a : α) : KeepsZeroSlot (pure a) := Emits.ret a fun _ h => h

/-- Two steps that leave the slot alone do so together. -/
theorem KeepsZeroSlot.bind {gen : Gen α} {k : α → Gen β} (hg : KeepsZeroSlot gen)
    (hk : ∀ a, KeepsZeroSlot (k a)) : KeepsZeroSlot (gen >>= k) := Emits.bind hg hk

/-- A choice leaves the slot alone, if both branches do. -/
theorem KeepsZeroSlot.ite {c : Prop} [Decidable c] {gen gen' : Gen α} (hg : KeepsZeroSlot gen)
    (hg' : KeepsZeroSlot gen') : KeepsZeroSlot (if c then gen else gen') :=
  Emits.ite (fun _ => hg) fun _ => hg'

/-- A single instruction leaves the slot alone, if it writes to no cell or another one. -/
theorem keepsZeroSlot_feEnc64 {i : FeInstr} (hi : i.writtenCell ≠ some (.gp x0)) :
    KeepsZeroSlot (feEnc64 i) :=
  .ite (Emits.emit hi fun _ h => h) (Emits.modify _ fun _ h => h)

/-- A step that is left out leaves the slot alone. -/
theorem keepsZeroSlot_onlyIf {c : Prop} [Decidable c] {gen : Gen Unit}
    (hg : c → KeepsZeroSlot gen) : KeepsZeroSlot (onlyIf c gen) :=
  Emits.ite hg fun _ => KeepsZeroSlot.ret ()

theorem keepsZeroSlot_getRInfo : KeepsZeroSlot getRInfo := fun _ _ =>
  ⟨fun _ hi => absurd hi List.not_mem_nil, trivial⟩

theorem keepsZeroSlot_modifyRInfo (f : RegisterInfo → RegisterInfo) :
    KeepsZeroSlot (modifyRInfo f) := Emits.modify _ fun _ h => h

/-- Write-backs are guarded by a comparison with `x0`. -/
theorem keepsZeroSlot_writeBack {reg : Nat} (hreg : reg ≠ x0) (R : FeReg) :
    KeepsZeroSlot (writeBack reg R) :=
  keepsZeroSlot_feEnc64 fun heq => hreg (Cell.gp.inj (Option.some.inj heq))

/-- A replacement that is given up is not stored, if it is labelled with the zero register. -/
theorem keepsZeroSlot_invalidateReplacement (i : Fin 3) :
    KeepsZeroSlot (invalidateReplacement i) :=
  .bind keepsZeroSlot_getRInfo fun _ =>
    .bind (keepsZeroSlot_onlyIf fun hc => keepsZeroSlot_writeBack hc.1 _) fun _ =>
      keepsZeroSlot_modifyRInfo _

/-- None of the three is stored to the slot. -/
theorem keepsZeroSlot_invalidateAll : KeepsZeroSlot invalidateAllReplacements :=
  .bind (keepsZeroSlot_invalidateReplacement 0) fun _ =>
    .bind (keepsZeroSlot_invalidateReplacement 1) fun _ => keepsZeroSlot_invalidateReplacement 2

theorem keepsZeroSlot_zero (R : FeReg) : KeepsZeroSlot (zero R) := keepsZeroSlot_feEnc64 nofun

/-- The oldest replacement is stored under the same test. -/
theorem keepsZeroSlot_takeOldest (requested : Nat) (requireValue : Bool) :
    KeepsZeroSlot (takeOldest requested requireValue) := by
  refine .bind keepsZeroSlot_getRInfo fun r => ?_
  refine .bind (keepsZeroSlot_onlyIf fun hc => keepsZeroSlot_writeBack hc.1 _) fun _ => ?_
  refine .bind (keepsZeroSlot_modifyRInfo _) fun _ => ?_
  exact .bind (keepsZeroSlot_onlyIf fun _ =>
    .ite (keepsZeroSlot_feEnc64 nofun) (keepsZeroSlot_zero _)) fun _ => .ret _

/-- A load into a replacement leaves the slot alone. -/
theorem keepsZeroSlot_loadIntoReplacement (requested : Nat) (requireValue : Bool) :
    KeepsZeroSlot (loadIntoReplacement requested requireValue) := by
  refine .bind (keepsZeroSlot_modifyRInfo _) fun _ => .bind keepsZeroSlot_getRInfo fun r => ?_
  cases r.find requested with
  | some i =>
      exact .bind (keepsZeroSlot_modifyRInfo _) fun _ =>
        .bind (keepsZeroSlot_onlyIf fun _ => keepsZeroSlot_zero _) fun _ => .ret _
  | none => exact keepsZeroSlot_takeOldest requested requireValue

theorem keepsZeroSlot_recordGpProfiler (flags : Flags) (x : Nat) :
    KeepsZeroSlot (recordGpProfiler flags x) :=
  keepsZeroSlot_onlyIf fun _ => keepsZeroSlot_feEnc64 nofun

/-- Reading a source leaves the slot alone. -/
theorem keepsZeroSlot_getSrc (flags : Flags) (x : Nat) : KeepsZeroSlot (getSrc flags x) := by
  refine .bind (keepsZeroSlot_recordGpProfiler flags x) fun _ => ?_
  cases gpMap x with
  | none => exact keepsZeroSlot_loadIntoReplacement x true
  | some mapped => exact .ret mapped

/-- So does taking a replacement for the destination, the zero register included. -/
theorem keepsZeroSlot_getRd (flags : Flags) (instr : RiscInstr) :
    KeepsZeroSlot (getRd flags instr) := by
  refine .bind (keepsZeroSlot_recordGpProfiler flags _) fun _ => ?_
  cases gpMap instr.regDest with
  | none => exact keepsZeroSlot_loadIntoReplacement _ false
  | some mapped => exact .ret mapped

/-! ## Shapes of emitters -/

variable (flags : Flags) {instr : RiscInstr}

theorem keepsZeroSlot_rd {tail : FeReg → Gen Unit} (ht : ∀ Rd, KeepsZeroSlot (tail Rd)) :
    KeepsZeroSlot (getRd flags instr >>= tail) := .bind (keepsZeroSlot_getRd flags instr) ht

/-- Code that reads a source and writes a destination. -/
theorem keepsZeroSlot_source_rd (x : Nat) {tail : FeReg → FeReg → Gen Unit}
    (ht : ∀ R Rd, KeepsZeroSlot (tail R Rd)) :
    KeepsZeroSlot (do let R ← getSrc flags x; let Rd ← getRd flags instr; tail R Rd) :=
  .bind (keepsZeroSlot_getSrc flags x) fun R => keepsZeroSlot_rd flags (ht R)

/-- Code that reads two sources and writes a destination. -/
theorem keepsZeroSlot_rs1_rs2_rd {tail : FeReg → FeReg → FeReg → Gen Unit}
    (ht : ∀ R1 R2 Rd, KeepsZeroSlot (tail R1 R2 Rd)) :
    KeepsZeroSlot (do
      let R1 ← getRs1 flags instr
      let R2 ← getRs2 flags instr
      let Rd ← getRd flags instr
      tail R1 R2 Rd) :=
  .bind (keepsZeroSlot_getSrc flags _) fun R1 => keepsZeroSlot_source_rd flags _ (ht R1)

theorem keepsZeroSlot_moveUnlessSame (size : OpSize) (Rd R : FeReg) :
    KeepsZeroSlot (moveUnlessSame size Rd R) :=
  keepsZeroSlot_onlyIf fun _ => keepsZeroSlot_feEnc64 nofun

theorem keepsZeroSlot_commutative (R1 R2 Rd : FeReg) (op : AluOp) (size : OpSize) :
    KeepsZeroSlot (doArithmCommutative R1 R2 Rd op size) :=
  .ite (keepsZeroSlot_feEnc64 nofun) (.ite (keepsZeroSlot_feEnc64 nofun)
    (.bind (keepsZeroSlot_feEnc64 nofun) fun _ => keepsZeroSlot_feEnc64 nofun))

end

end Translate

end RiaJit
