import RiaJit.Gen.Arithmetic
import RiaJit.Gen.Operands
import RiaJit.X86.Conditions

/-!
# Simulation of instructions

The code of an instruction takes a host that represents a guest state to one that
represents the state after the instruction. What is special to an emitter is its tail,
which works on the host registers of the operands and writes that of the destination.
-/

set_option autoImplicit false

namespace RiaJit.Translate

open EmitLogic X86

/-- The code that a generator emits has the effect `f` on the guest. -/
def Simulates (gen : Gen Unit) (f : GuestState → GuestState) : Prop :=
  ∀ g r h e, Represents x0 g r h →
    ∃ r' h', RunsOn gen ⟨r, e⟩ h () ⟨r', e⟩ h' ∧ Represents x0 (f g) r' h' ∧ Outside h h'

/-- The end of an emitter: its code changes one host register and no contents. -/
def Computes (tail : Gen Unit) (h : HostState) (R : FeReg) (v : BitVec 64) : Prop :=
  ∀ s, ∃ h', RunsOn tail s h () s h' ∧ Writes h h' R v

section Rules

variable {flags : Flags} {instr : RiscInstr}

theorem Simulates.ret : Simulates (pure ()) id := fun _ r h _ hrep =>
  ⟨r, h, Runs.ret _ _ _, hrep, Outside.refl h⟩

theorem Simulates.bind {gen gen' : Gen Unit} {f f' : GuestState → GuestState}
    (h₁ : Simulates gen f) (h₂ : Simulates gen' f') :
    Simulates (gen >>= fun _ => gen') fun g => f' (f g) := by
  intro g r h e hrep
  obtain ⟨r₁, h₁, hrun₁, hrep₁, hout₁⟩ := h₁ g r h e hrep
  obtain ⟨r₂, h₂, hrun₂, hrep₂, hout₂⟩ := h₂ (f g) r₁ h₁ e hrep₁
  exact ⟨r₂, h₂, hrun₁.bind hrun₂, hrep₂, hout₁.trans hout₂⟩

/-- An instruction with a destination only. -/
theorem simulates_rd (hrd : instr.regDest < 32) {tail : FeReg → Gen Unit} {v : BitVec 64}
    (htail : ∀ Rd h, Computes (tail Rd) h Rd v) :
    Simulates (getRd flags instr >>= tail) fun g => g.write instr.regDest v := by
  intro g r h e hrep
  obtain ⟨Rd, r₁, h₁, hrun₁, hf₁, hloc⟩ := getRd_runs (e := e) flags hrep hrd
  obtain ⟨h₂, hrun₂, hw⟩ := htail Rd h₁ ⟨r₁, e⟩
  exact ⟨r₁, h₂, hrun₁.bind hrun₂, hf₁.rep.write hloc hrd hw,
    hf₁.outside.trans (hw.outside hloc)⟩

/-- A destination that is computed from one source. -/
theorem simulates_source_rd {flags' : Flags} {x : Nat} (val : Memory → BitVec 64 → BitVec 64)
    (hx : x < 32) (hrd : instr.regDest < 32) {tail : FeReg → FeReg → Gen Unit}
    (htail : ∀ R Rd h, Computes (tail R Rd) h Rd (val h.mem (h.reg R))) :
    Simulates (do let R ← getSrc flags' x; let Rd ← getRd flags instr; tail R Rd)
      fun g => g.write instr.regDest (val g.mem (g.read x)) := by
  intro g r h e hrep
  obtain ⟨R, r₁, h₁, hrun₁, hf₁, ho₁⟩ := getSrc_runs (e := e) flags' hrep hx
  obtain ⟨Rd, r₂, h₂, hrun₂, hf₂, hloc⟩ := getRd_runs (e := e) flags hf₁.rep hrd
  obtain ⟨h₃, hrun₃, hw⟩ := htail R Rd h₂ ⟨r₂, e⟩
  have hval : h₂.reg R = g.read x := (hf₂.operands R _ 0 (Nat.zero_le 1) hx ho₁).2
  rw [hval, hf₂.rep.mem] at hw
  exact ⟨r₂, h₃, hrun₁.bind (hrun₂.bind hrun₃), hf₂.rep.write hloc hrd hw,
    hf₁.outside.trans (hf₂.outside.trans (hw.outside hloc))⟩

/-- An instruction with one source. -/
theorem simulates_rs1_rd (val : Memory → BitVec 64 → BitVec 64) (hrs1 : instr.regSrc1 < 32)
    (hrd : instr.regDest < 32) {tail : FeReg → FeReg → Gen Unit}
    (htail : ∀ R1 Rd h, Computes (tail R1 Rd) h Rd (val h.mem (h.reg R1))) :
    Simulates (do let R1 ← getRs1 flags instr; let Rd ← getRd flags instr; tail R1 Rd)
      fun g => g.write instr.regDest (val g.mem (g.read instr.regSrc1)) :=
  simulates_source_rd val hrs1 hrd htail

/-- An instruction with two sources. -/
theorem simulates_rs1_rs2_rd (val : BitVec 64 → BitVec 64 → BitVec 64)
    (hrs1 : instr.regSrc1 < 32) (hrs2 : instr.regSrc2 < 32) (hrd : instr.regDest < 32)
    {tail : FeReg → FeReg → FeReg → Gen Unit}
    (htail : ∀ R1 R2 Rd h, Computes (tail R1 R2 Rd) h Rd (val (h.reg R1) (h.reg R2))) :
    Simulates (do
        let R1 ← getRs1 flags instr
        let R2 ← getRs2 flags instr
        let Rd ← getRd flags instr
        tail R1 R2 Rd)
      fun g => g.write instr.regDest (val (g.read instr.regSrc1) (g.read instr.regSrc2)) := by
  intro g r h e hrep
  obtain ⟨R1, r₁, h₁, hrun₁, hf₁, ho₁⟩ := getSrc_runs (e := e) flags hrep hrs1
  obtain ⟨R2, r₂, h₂, hrun₂, hf₂, ho₂⟩ := getSrc_runs (e := e) flags hf₁.rep hrs2
  obtain ⟨Rd, r₃, h₃, hrun₃, hf₃, hloc⟩ := getRd_runs (e := e) flags hf₂.rep hrd
  obtain ⟨h₄, hrun₄, hw⟩ := htail R1 R2 Rd h₃ ⟨r₃, e⟩
  have hval₁ : h₃.reg R1 = g.read instr.regSrc1 :=
    (hf₃.operands R1 _ 1 (Nat.le_refl 1) hrs1
      (hf₂.operands R1 _ 0 (Nat.zero_le 1) hrs1 ho₁)).2
  have hval₂ : h₃.reg R2 = g.read instr.regSrc2 :=
    (hf₃.operands R2 _ 0 (Nat.zero_le 1) hrs2 ho₂).2
  rw [hval₁, hval₂] at hw
  exact ⟨r₃, h₄, hrun₁.bind (hrun₂.bind (hrun₃.bind hrun₄)), hf₃.rep.write hloc hrd hw,
    hf₁.outside.trans (hf₂.outside.trans (hf₃.outside.trans (hw.outside hloc)))⟩

/-! ### Tails -/

variable {h : HostState} {R : FeReg} {v : BitVec 64}

theorem computes_feEnc64 {i : FeInstr} {h' : HostState} (henc : i.encodable = true)
    (hexec : i.exec h = some h') (hw : Writes h h' R v) : Computes (feEnc64 i) h R v :=
  fun _ => ⟨h', runs_feEnc64 henc hexec, hw⟩

/-- An instruction that writes the register after others did. -/
theorem Computes.bind {g : Gen Unit} {k : Gen Unit} {w : BitVec 64} (hg : Computes g h R v)
    (hk : ∀ h', Writes h h' R v → Computes k h' R w) : Computes (g >>= fun _ => k) h R w := by
  intro s
  obtain ⟨h₁, hrun₁, hw₁⟩ := hg s
  obtain ⟨h₂, hrun₂, hw₂⟩ := hk h₁ hw₁ s
  exact ⟨h₂, hrun₁.bind hrun₂, hw₁.trans hw₂⟩

theorem Computes.cast {g : Gen Unit} {w : BitVec 64} (hg : Computes g h R v) (heq : v = w) :
    Computes g h R w := by
  rwa [← heq]

theorem computes_none : Computes (pure ()) h R (h.reg R) :=
  fun _ => ⟨h, Runs.ret _ _ _, writes_refl h R⟩

theorem Writes.self {h' : HostState} (hw : Writes h h' R v) : h'.reg R = v := by
  rw [hw.reg, Function.update_self]

theorem Writes.other {h' : HostState} {R' : FeReg} (hw : Writes h h' R v) (hne : R' ≠ R) :
    h'.reg R' = h.reg R' := by
  rw [hw.reg, Function.update_of_ne hne]

theorem computes_movrr (size : OpSize) (dst src : FeReg) :
    Computes (feEnc64 (.movrr size dst src)) h dst
      (sized size (fun a _ => a) (h.reg src) 0#64) :=
  computes_feEnc64 rfl rfl (writes_setReg ..)

theorem computes_alurr (op : AluOp) (size : OpSize) (dst src : FeReg) :
    Computes (feEnc64 (.alurr op size dst src)) h dst
      (sized size op.eval (h.reg dst) (h.reg src)) :=
  computes_feEnc64 rfl rfl (writes_setReg ..).clobberFlags

theorem computes_aluri (op : AluOp) (size : OpSize) (dst : FeReg) {imm : BitVec 64}
    (himm : FeInstr.fitsInt32 imm = true) :
    Computes (feEnc64 (.aluri op size dst imm)) h dst (sized size op.eval (h.reg dst) imm) :=
  computes_feEnc64 himm rfl (writes_setReg ..).clobberFlags

theorem computes_movsx (dst src : FeReg) :
    Computes (feEnc64 (.movsxr64r32 dst src)) h dst (sext32 ((h.reg src).setWidth 32)) :=
  computes_feEnc64 rfl rfl (writes_setReg ..)

theorem computes_movzx (dst src : FeReg) :
    Computes (feEnc64 (.movzxr32r8 dst src)) h dst (((h.reg src).setWidth 8).setWidth 64) :=
  computes_feEnc64 rfl rfl (writes_setReg ..)

/-- A 32-bit result in a register is sign extended in place. -/
theorem Computes.signExtend {g : Gen Unit} (hg : Computes g h R v) :
    Computes (g >>= fun _ => feEnc64 (.movsxr64r32 R R)) h R (sext32 (v.setWidth 32)) := by
  refine hg.bind fun h' hw => ?_
  rw [← hw.self]
  exact computes_movsx R R

end Rules

/-! ## Effects on the guest -/

section Effects

variable {instr : RiscInstr} {h : HostState}

/-- The effect of an instruction that computes the value of its destination. -/
theorem step_alu {val : BitVec 64 → BitVec 64 → BitVec 64}
    (hval : ∀ a b, instr.aluResult a b = some (val a b)) (g : GuestState) :
    g.step instr = g.write instr.regDest (val (g.read instr.regSrc1) (g.read instr.regSrc2)) := by
  unfold GuestState.step
  simp only [hval]

theorem write_x0 (g : GuestState) (v : BitVec 64) : g.write x0 v = g := if_pos rfl

/-- A simulation whose effect is that of the guest's instruction. -/
theorem Simulates.step {gen : Gen Unit} {f : GuestState → GuestState} (hs : Simulates gen f)
    (heq : ∀ g, g.step instr = f g) : Simulates gen fun g => g.step instr := by
  rwa [show (fun g => g.step instr) = f from funext heq]

/-- An instruction that computes with one source. -/
theorem simulates_alu1 (flags : Flags) (val : BitVec 64 → BitVec 64)
    (hval : ∀ a b, instr.aluResult a b = some (val a)) (hrs1 : instr.regSrc1 < 32)
    (hrd : instr.regDest < 32) {tail : FeReg → FeReg → Gen Unit}
    (htail : ∀ R1 Rd h, Computes (tail R1 Rd) h Rd (val (h.reg R1))) :
    Simulates (do let R1 ← getRs1 flags instr; let Rd ← getRd flags instr; tail R1 Rd)
      fun g => g.step instr :=
  (simulates_rs1_rd (fun _ a => val a) hrs1 hrd htail).step (step_alu hval)

/-- An instruction that computes with two sources. -/
theorem simulates_alu2 (flags : Flags) (val : BitVec 64 → BitVec 64 → BitVec 64)
    (hval : ∀ a b, instr.aluResult a b = some (val a b)) (hrs1 : instr.regSrc1 < 32)
    (hrs2 : instr.regSrc2 < 32) (hrd : instr.regDest < 32)
    {tail : FeReg → FeReg → FeReg → Gen Unit}
    (htail : ∀ R1 R2 Rd h, Computes (tail R1 R2 Rd) h Rd (val (h.reg R1) (h.reg R2))) :
    Simulates (do
        let R1 ← getRs1 flags instr
        let R2 ← getRs2 flags instr
        let Rd ← getRd flags instr
        tail R1 R2 Rd)
      fun g => g.step instr :=
  (simulates_rs1_rs2_rd val hrs1 hrs2 hrd htail).step (step_alu hval)

/-! ### Values of 32 bits -/

/-- The 32-bit part of a value that was computed in 32 bits. -/
theorem setWidth_sized (f : {n : Nat} → BitVec n → BitVec n → BitVec n) (a b : BitVec 64) :
    (sized .s32 f a b).setWidth 32 = f (a.setWidth 32) (b.setWidth 32) := by
  show ((f (a.setWidth 32) (b.setWidth 32)).setWidth 64).setWidth 32 = _
  rw [BitVec.setWidth_setWidth_of_le _ (by decide), BitVec.setWidth_eq]

theorem setWidth_add (a b : BitVec 64) :
    (a + b).setWidth 32 = a.setWidth 32 + b.setWidth 32 :=
  BitVec.setWidth_add a b (by decide)

/-- A conjunction with a zero extended value needs 32 bits only. -/
theorem and_of_zext {a imm : BitVec 64} (h : (imm.setWidth 32).setWidth 64 = imm) :
    (a.setWidth 32 &&& imm.setWidth 32).setWidth 64 = a &&& imm := by
  apply BitVec.eq_of_getLsbD_eq
  intro i hi
  have hbit : ((imm.setWidth 32).setWidth 64).getLsbD i = imm.getLsbD i := by rw [h]
  simp only [BitVec.getLsbD_setWidth, BitVec.getLsbD_and, hi, decide_true, Bool.true_and] at hbit ⊢
  by_cases hlow : i < 32
  · simp [hlow]
  · simp only [hlow, decide_false, Bool.false_and] at hbit ⊢
    rw [← hbit, Bool.and_false]

/-! ### Comparisons -/

/-- The low byte of a register is replaced and then zero extended. -/
theorem boolValue_eq (v : BitVec 64) (b : Bool) :
    ((v &&& ~~~0xff#64 ||| (BitVec.ofBool b).setWidth 64).setWidth 8).setWidth 64 =
      boolValue b := by
  have hclear : (v &&& ~~~0xff#64).setWidth 8 = 0#8 := by
    rw [BitVec.setWidth_and]
    exact BitVec.and_zero
  rw [BitVec.setWidth_or, hclear, BitVec.zero_or]
  cases b with
  | false => rfl
  | true => rfl

/-- The truth value that `SETcc` and `MOVZX` leave. -/
theorem computes_setcc (cond : Cond) (Rd : FeReg) {flags : X86Flags}
    (hflags : h.flags = some flags) :
    Computes (do feEnc64 (.set8r cond Rd); feEnc64 (.movzxr32r8 Rd Rd)) h Rd
      (boolValue (cond.holds flags)) := by
  have hset : (FeInstr.set8r cond Rd).exec h = some (h.setReg Rd (h.reg Rd &&& ~~~0xff#64 |||
      (BitVec.ofBool (cond.holds flags)).setWidth 64)) := by
    show h.flags.map _ = _
    rw [hflags]
    rfl
  have hfirst : Computes (feEnc64 (.set8r cond Rd)) h Rd _ :=
    computes_feEnc64 rfl hset (writes_setReg ..)
  refine hfirst.bind fun h' hw => (computes_movzx Rd Rd).cast ?_
  rw [hw.self, boolValue_eq]

/-- A comparison changes the flags only. -/
theorem computes_compare {i : FeInstr} {flags : X86Flags} (henc : i.encodable = true)
    (hexec : i.exec h = some { h with flags := some flags }) (cond : Cond) (Rd : FeReg) :
    Computes (do feEnc64 i; feEnc64 (.set8r cond Rd); feEnc64 (.movzxr32r8 Rd Rd)) h Rd
      (boolValue (cond.holds flags)) := by
  intro s
  obtain ⟨h', hrun, hw⟩ := computes_setcc (h := { h with flags := some flags }) cond Rd rfl s
  exact ⟨h', .bind (runs_feEnc64 henc hexec) hrun, hw.reg, hw.cell, hw.mem, hw.stack⟩

end Effects

end RiaJit.Translate
