import RiaJit.Gen.ConstantFusion
import RiaJit.Gen.ZeroSlot

/-!
# Idioms of one instruction

The patterns of one element replace an emitter of the dispatch by one of their own. All
but two have the same effect: `emit_pattern_8_SEXTW` works on the register file itself,
`x0` included, and `emit_pattern_17_SLTZ` has a call that the encoder rejects.
-/

set_option autoImplicit false

namespace RiaJit.Translate

open EmitLogic X86

/-! ## The same effect -/

/-- Two hosts hold the same guest, and the slot of `x0` is the same in both. -/
structure SameGuest (r₁ : RegisterInfo) (h₁ : HostState) (r₂ : RegisterInfo) (h₂ : HostState) :
    Prop where
  regs : ∀ x, x ≠ x0 → x < 32 → regValue r₁ h₁ x = regValue r₂ h₂ x
  mem : h₁.mem = h₂.mem
  zeroSlot : h₁.cell (.gp x0) = h₂.cell (.gp x0)

/-- What two generators emit from the same state of a block has the same effect. -/
def SameEffect (gen gen' : Gen Unit) (r : RegisterInfo) (h : HostState) : Prop :=
  ∃ r₁ h₁ r₂ h₂, RunsOn gen ⟨r, false⟩ h () ⟨r₁, false⟩ h₁ ∧
    RunsOn gen' ⟨r, false⟩ h () ⟨r₂, false⟩ h₂ ∧ SameGuest r₁ h₁ r₂ h₂

/-- Two pieces of code that simulate the same step have the same effect, if both leave the slot of
the zero register alone. -/
theorem SameEffect.of_simulates {gen gen' : Gen Unit} {f : GuestState → GuestState}
    (hs : Simulates gen f) (hk : KeepsZeroSlot gen) (hs' : Simulates gen' f)
    (hk' : KeepsZeroSlot gen') {r : RegisterInfo} (hwf : r.WellFormed) (h : HostState) :
    SameEffect gen gen' r h := by
  have hrep := represents_self hwf h
  obtain ⟨r₁, h₁, hrun₁, hrep₁, -⟩ := hs _ r h false hrep
  obtain ⟨r₂, h₂, hrun₂, hrep₂, -⟩ := hs' _ r h false hrep
  refine ⟨r₁, h₁, r₂, h₂, hrun₁, hrun₂, fun x hx hlt => ?_, ?_, ?_⟩
  · rw [hrep₁.regs x hx hx hlt, hrep₂.regs x hx hx hlt]
  · rw [hrep₁.mem, hrep₂.mem]
  · rw [hk.runs hrun₁, hk'.runs hrun₂]

/-! ## Values -/

section Values

variable (flags : Flags) {instr : RiscInstr} {h : HostState}

theorem computes_not (Rd : FeReg) : Computes (feEnc64 (.not64r Rd)) h Rd (~~~h.reg Rd) :=
  computes_feEnc64 rfl rfl (writes_setReg ..)

theorem computes_clear (Rd : FeReg) :
    Computes (feEnc64 (.alurr .xor .s32 Rd Rd)) h Rd 0#64 := by
  refine (computes_alurr .xor .s32 Rd Rd).cast ?_
  show (((h.reg Rd).setWidth 32 ^^^ (h.reg Rd).setWidth 32).setWidth 64) = 0#64
  rw [BitVec.xor_self]
  rfl

/-- A comparison with zero. -/
theorem computes_setZeroTest (cond : Cond) (R Rd : FeReg) :
    Computes (setZeroTest cond R Rd) h Rd (boolValue (cond.holds (cmpFlags (h.reg R) 0#64))) := by
  rw [← testFlags_self]
  exact computes_compare rfl rfl cond Rd

/-- Only zero is below one. -/
theorem ult_one (a : BitVec 64) : a.ult 1#64 = (a == 0#64) := by
  rw [BitVec.ult_eq_decide]
  by_cases ha : a = 0#64
  · rw [ha]
    rfl
  · have hne : a.toNat ≠ 0 := fun h => ha (BitVec.eq_of_toNat_eq h)
    rw [beq_eq_false_iff_ne.2 ha]
    exact decide_eq_false (by show ¬ a.toNat < 1; omega)

/-- All but zero is above zero. -/
theorem zero_ult (a : BitVec 64) : (0#64).ult a = !(a == 0#64) := by
  rw [BitVec.ult_eq_decide]
  by_cases ha : a = 0#64
  · rw [ha]
    rfl
  · have hne : a.toNat ≠ 0 := fun h => ha (BitVec.eq_of_toNat_eq h)
    rw [beq_eq_false_iff_ne.2 ha]
    exact decide_eq_true (by show 0 < a.toNat; omega)

/-- An instruction that computes with its second source, where the first one is `x0`. -/
theorem simulates_onSecond (f : BitVec 64 → BitVec 64) (hrs1 : instr.regSrc1 = x0)
    (hval : ∀ b, instr.aluResult 0#64 b = some (f b)) (hrs2 : instr.regSrc2 < 32)
    (hrd : instr.regDest < 32) {tail : FeReg → FeReg → Gen Unit}
    (htail : ∀ R Rd h, Computes (tail R Rd) h Rd (f (h.reg R))) :
    Simulates (do let R ← getRs2 flags instr; let Rd ← getRd flags instr; tail R Rd)
      fun g => g.step instr := by
  refine (simulates_source_rd (fun _ => f) hrs2 hrd htail).step fun g => step_of_aluResult ?_
  rw [hrs1]
  exact hval _

/-- `MV` is a move. -/
theorem simulates_emitPattern11MV (hmnem : instr.mnem = .addi) (himm : instr.imm = 0#64)
    (hrs1 : instr.regSrc1 < 32) (hrd : instr.regDest < 32) :
    Simulates (emitPattern11MV flags instr) fun g => g.step instr := by
  have hval : ∀ a b, instr.aluResult a b = some a := fun a b => by
    unfold RiscInstr.aluResult
    rw [hmnem, himm]
    exact congrArg some (BitVec.add_zero a)
  unfold emitPattern11MV
  by_cases hx0 : instr.regSrc1 ≠ x0
  · rw [if_pos hx0]
    exact simulates_alu1 flags id hval hrs1 hrd fun R1 Rd _ => computes_moveUnlessSame R1 Rd
  · rw [if_neg hx0]
    refine (simulates_rd hrd fun Rd _ => computes_clear Rd).step fun g => step_of_aluResult ?_
    rw [not_not.1 hx0]
    exact hval ..

/-- `NOT` is a complement. -/
theorem simulates_emitPattern12NOT (hmnem : instr.mnem = .xori) (himm : instr.imm = -1#64)
    (hrs1 : instr.regSrc1 < 32) (hrd : instr.regDest < 32) :
    Simulates (emitPattern12NOT flags instr) fun g => g.step instr := by
  refine simulates_alu1 flags (fun a => ~~~a) (fun a b => ?_) hrs1 hrd fun R1 Rd h => ?_
  · unfold RiscInstr.aluResult
    rw [hmnem, himm]
    exact congrArg some BitVec.xor_allOnes
  · refine (computes_moveUnlessSame R1 Rd).bind fun h' hw => ?_
    rw [← hw.self]
    exact computes_not Rd

/-- `NEG` is a negation. -/
theorem simulates_emitPattern13NEG (hmnem : instr.mnem = .sub) (hrs1 : instr.regSrc1 = x0)
    (hrs2 : instr.regSrc2 < 32) (hrd : instr.regDest < 32) :
    Simulates (emitPattern13NEG flags instr) fun g => g.step instr := by
  refine simulates_onSecond flags (fun b => -b) hrs1 (fun b => ?_) hrs2 hrd fun R Rd h => ?_
  · unfold RiscInstr.aluResult
    rw [hmnem]
    exact congrArg some (BitVec.zero_sub b)
  · refine (computes_moveUnlessSame R Rd).bind fun h' hw => ?_
    rw [← hw.self]
    exact computes_neg .s64 Rd

/-- `NEGW` is a negation in 32 bits. -/
theorem simulates_emitPattern14NEGW (hmnem : instr.mnem = .subw) (hrs1 : instr.regSrc1 = x0)
    (hrs2 : instr.regSrc2 < 32) (hrd : instr.regDest < 32) :
    Simulates (emitPattern14NEGW flags instr) fun g => g.step instr := by
  refine simulates_onSecond flags (fun b => sext32 (-b.setWidth 32)) hrs1 (fun b => ?_) hrs2 hrd
    fun R Rd h => ?_
  · unfold RiscInstr.aluResult
    rw [hmnem]
    exact congrArg (fun v => some (sext32 v)) (BitVec.zero_sub _)
  · obtain ⟨v, hv, heq⟩ := computes_moveUnlessSameW (h := h) R Rd
    refine hv.bind fun h' hw => (Computes.signExtend (computes_neg .s32 Rd)).cast ?_
    rw [setWidth_sized, hw.self, heq]

/-- `SEQZ` tests for zero. -/
theorem simulates_emitPattern15SEQZ (hmnem : instr.mnem = .sltiu) (himm : instr.imm = 1#64)
    (hrs1 : instr.regSrc1 < 32) (hrd : instr.regDest < 32) :
    Simulates (emitPattern15SEQZ flags instr) fun g => g.step instr := by
  refine simulates_alu1 flags (fun a => boolValue (Cond.holds .z (cmpFlags a 0#64)))
    (fun a b => ?_) hrs1 hrd fun R Rd _ => computes_setZeroTest .z R Rd
  unfold RiscInstr.aluResult
  rw [hmnem, himm, holds_z, ← ult_one]

/-- `SNEZ` tests for anything else. -/
theorem simulates_emitPattern16SNEZ (hmnem : instr.mnem = .sltu) (hrs1 : instr.regSrc1 = x0)
    (hrs2 : instr.regSrc2 < 32) (hrd : instr.regDest < 32) :
    Simulates (emitPattern16SNEZ flags instr) fun g => g.step instr := by
  refine simulates_onSecond flags (fun b => boolValue (Cond.holds .nz (cmpFlags b 0#64))) hrs1
    (fun b => ?_) hrs2 hrd fun R Rd _ => computes_setZeroTest .nz R Rd
  unfold RiscInstr.aluResult
  rw [hmnem, holds_nz, ← zero_ult]

/-- `SGTZ` tests for positive numbers. -/
theorem simulates_emitPattern18SGTZ (hmnem : instr.mnem = .slt) (hrs1 : instr.regSrc1 = x0)
    (hrs2 : instr.regSrc2 < 32) (hrd : instr.regDest < 32) :
    Simulates (emitPattern18SGTZ flags instr) fun g => g.step instr := by
  refine simulates_onSecond flags (fun b => boolValue (Cond.holds .g (cmpFlags b 0#64))) hrs1
    (fun b => ?_) hrs2 hrd fun R Rd _ => computes_setZeroTest .g R Rd
  unfold RiscInstr.aluResult
  rw [hmnem, holds_g]

/-- `LI` is a constant of 32 bits. -/
theorem simulates_emitPattern20SmallLI (hmnem : instr.mnem = .addi) (hrs1 : instr.regSrc1 = x0)
    (hrd : instr.regDest < 32) :
    Simulates (emitPattern20SmallLI flags instr) fun g => g.step instr := by
  refine (simulates_rd (v := instr.imm) hrd fun Rd h =>
    computes_feEnc64 rfl rfl (writes_setReg ..)).step fun g => step_of_aluResult ?_
  unfold RiscInstr.aluResult
  rw [hmnem, hrs1]
  exact congrArg some (BitVec.zero_add instr.imm)

/-- `ANDI` with 255 is an extension of a byte. -/
theorem simulates_emitPattern22 (hmnem : instr.mnem = .andi) (himm : instr.imm = 0xff#64)
    (hrs1 : instr.regSrc1 < 32) (hrd : instr.regDest < 32) :
    Simulates (emitPattern22 flags instr) fun g => g.step instr := by
  refine simulates_alu1 flags (fun a => (a.setWidth 8).setWidth 64) (fun a b => ?_) hrs1 hrd
    fun R Rd _ => computes_movzx Rd R
  rw [step_andi hmnem, himm, and_byte]

/-- Nothing is emitted for `x0` but a `NOP`. -/
theorem simulates_emitPattern10NOP (hmnem : instr.mnem = .addi) (hrd : instr.regDest = x0) :
    Simulates emitPattern10NOP fun g => g.step instr := by
  refine simulates_nop.step fun g => ?_
  have hval : ∀ a b, instr.aluResult a b = some (a + instr.imm) := fun a b => by
    unfold RiscInstr.aluResult
    rw [hmnem]
  rw [step_alu hval, hrd]
  exact write_x0 g _

end Values

/-! ## The sign extension of a word -/

section SignExtension

variable {g : GuestState} {r : RegisterInfo} {h : HostState} {e : Bool} {instr : RiscInstr}
  {d : Nat}

/-- What `emit_pattern_8_SEXTW` takes for a source register: for `x0` it reads the slot. -/
def sourceWord (h : HostState) (g : GuestState) (x : Nat) : BitVec 64 :=
  if x = x0 then h.cell (.gp x0) else g.reg x

/-- The value that it writes to the destination. -/
def extendedWord (h : HostState) (g : GuestState) (instr : RiscInstr) : BitVec 64 :=
  sext32 ((sourceWord h g instr.regSrc1).setWidth 32)

/-- A value that is written to the register file, while no replacement holds anything. -/
theorem Represents.storeSlot (hrep : Represents x0 g r h) (hempty : r.Empty)
    (hmap : gpMap d = none) (v : BitVec 64) :
    Represents x0 (g.write d v) r ((h.setReg .ax v).setCell (.gp d) v) := by
  refine ⟨hrep.wf, fun y hy _ hlt => ?_, by rw [g.write_mem]; exact hrep.mem⟩
  rw [regValue_empty hempty _ hlt, reg_write _ _ _ hy, ← hrep.regs y hy hy hlt,
    regValue_empty hempty _ hlt]
  cases hy' : gpMap y with
  | some mapped =>
      have hyd : y ≠ d := fun heq => by
        rw [heq, hmap] at hy'
        cases hy'
      rw [if_neg hyd]
      exact Function.update_of_ne (gpMap_ne_replacement hy' 0) ..
  | none =>
      by_cases hyd : y = d
      · rw [if_pos hyd, hyd]
        exact Function.update_self ..
      · rw [if_neg hyd]
        exact Function.update_of_ne (fun heq => hyd (Cell.gp.inj heq)) ..

theorem outside_storeSlot (hd : d < 32) (v : BitVec 64) :
    Outside h ((h.setReg .ax v).setCell (.gp d) v) :=
  ⟨rfl, Function.update_of_ne (show FeReg.sp ≠ .ax from nofun) v h.reg, fun _ hc =>
    Function.update_of_ne (fun heq => hc (by rw [heq]; exact hd)) ..⟩

/-- A source that is not mapped, after all replacements were emptied. -/
theorem slot_eq (hrep : Represents x0 g r h) (hempty : r.Empty) {x : Nat} (hmap : gpMap x = none)
    (hx : x < 32) : h.cell (.gp x) = sourceWord h g x := by
  unfold sourceWord
  by_cases hx0 : x = x0
  · rw [if_pos hx0, hx0]
  · rw [if_neg hx0, ← hrep.regs x hx0 hx0 hx, regValue_empty hempty h hx, hmap]

/-- A mapped register holds what the pattern reads. -/
theorem mapped_eq (hrep : Represents x0 g r h) {x : Nat} {mapped : FeReg}
    (hmap : gpMap x = some mapped) (hx : x < 32) : h.reg mapped = sourceWord h g x := by
  have hx0 : x ≠ x0 := fun heq => by
    rw [heq, gpMap_x0] at hmap
    cases hmap
  unfold sourceWord
  rw [if_neg hx0, ← hrep.regs x hx0 hx0 hx, regValue_mapped hmap]

/-- What follows a first part of the code may be run on its own. -/
theorem runs_bind_exists {first : Gen Unit} {rest : Unit → Gen Unit} {s s₁ : GenState}
    {h h₁ : HostState} {Q : RegisterInfo → HostState → Prop} (hfirst : RunsOn first s h () s₁ h₁)
    (hrest : ∃ r' h', RunsOn (rest ()) s₁ h₁ () ⟨r', e⟩ h' ∧ Q r' h') :
    ∃ r' h', RunsOn (first >>= rest) s h () ⟨r', e⟩ h' ∧ Q r' h' := by
  obtain ⟨r', h', hrun, hQ⟩ := hrest
  exact ⟨r', h', hfirst.bind hrun, hQ⟩

/-- The code extends what is stored for the source, and stores the result. -/
theorem emitPattern8_runs (hrep : Represents x0 g r h) (hrs1 : instr.regSrc1 < 32)
    (hrd : instr.regDest < 32) :
    ∃ r' h', RunsOn (emitPattern8SEXTW instr) ⟨r, e⟩ h () ⟨r', e⟩ h' ∧
      Represents x0 (g.write instr.regDest (extendedWord h g instr)) r' h' ∧ Outside h h' ∧
      h'.cell (.gp x0) =
        if instr.regDest = x0 then extendedWord h g instr else h.cell (.gp x0) := by
  obtain ⟨r', h₁, hrun, hrep₁, hout, hempty⟩ := invalidateAllReplacements_runs (e := e) hrep
  have hslot : h₁.cell (.gp x0) = h.cell (.gp x0) := keepsZeroSlot_invalidateAll.runs hrun
  have hvalue : sourceWord h₁ g instr.regSrc1 = sourceWord h g instr.regSrc1 := by
    unfold sourceWord
    rw [hslot]
  obtain ⟨v, hv⟩ : ∃ v, v = extendedWord h g instr := ⟨_, rfl⟩
  -- the result is in a mapped register, or in `AX` and then in the slot
  have hdest : ∀ dest i, gpMap instr.regDest = some dest → i.encodable = true →
      i.exec h₁ = some (h₁.setReg dest v) → ∃ r'' h', RunsOn (feEnc64 i) ⟨r', e⟩ h₁ () ⟨r'', e⟩ h' ∧
        Represents x0 (g.write instr.regDest v) r'' h' ∧ Outside h h' ∧
        h'.cell (.gp x0) = if instr.regDest = x0 then v else h.cell (.gp x0) := by
    intro dest i hmap henc hexec
    have hloc : Located r' dest instr.regDest := .inl hmap
    have hw : Writes h₁ (h₁.setReg dest v) dest v := writes_setReg ..
    have hx0 : instr.regDest ≠ x0 := fun heq => by
      rw [heq, gpMap_x0] at hmap
      cases hmap
    rw [if_neg hx0, ← hslot]
    exact ⟨r', _, runs_feEnc64 henc hexec, hrep₁.forget.write hloc hrd hw,
      hout.trans (hw.outside hloc), rfl⟩
  have hstore : ∀ i, gpMap instr.regDest = none → i.encodable = true →
      i.exec h₁ = some (h₁.setReg .ax v) →
      ∃ r'' h', RunsOn (do feEnc64 i; feEnc64 (.mov64mrCell (.gp instr.regDest) .ax)) ⟨r', e⟩ h₁ ()
          ⟨r'', e⟩ h' ∧ Represents x0 (g.write instr.regDest v) r'' h' ∧ Outside h h' ∧
        h'.cell (.gp x0) = if instr.regDest = x0 then v else h.cell (.gp x0) := by
    intro i hmap henc hexec
    have hexec' : (FeInstr.mov64mrCell (.gp instr.regDest) .ax).exec (h₁.setReg .ax v) =
        some ((h₁.setReg .ax v).setCell (.gp instr.regDest) v) := by
      show some ((h₁.setReg .ax v).setCell _ (Function.update h₁.reg .ax v .ax)) = _
      rw [Function.update_self]
    refine ⟨r', _, .bind (runs_feEnc64 henc hexec) (runs_feEnc64 rfl hexec'),
      hrep₁.storeSlot hempty hmap v, hout.trans (outside_storeSlot hrd v), ?_⟩
    by_cases hx0 : instr.regDest = x0
    · rw [if_pos hx0, hx0]
      show Function.update h₁.cell (.gp x0) v (.gp x0) = v
      exact Function.update_self ..
    · rw [if_neg hx0, ← hslot]
      exact Function.update_of_ne (fun heq => hx0 (Cell.gp.inj heq).symm) ..
  rw [← hv]
  refine runs_bind_exists hrun ?_
  cases hs : gpMap instr.regSrc1 with
  | some source =>
      have hsource : ∀ R, (FeInstr.movsxr64r32 R source).exec h₁ = some (h₁.setReg R v) := by
        intro R
        show some (h₁.setReg R (sext32 ((h₁.reg source).setWidth 32))) = _
        rw [mapped_eq hrep₁ hs hrs1, hvalue, hv]
        rfl
      cases hd : gpMap instr.regDest with
      | some dest => exact hdest dest _ hd rfl (hsource dest)
      | none => exact hstore _ hd rfl (hsource .ax)
  | none =>
      have hsource : ∀ R, (FeInstr.movsxr64m32Cell R (.gp instr.regSrc1)).exec h₁ =
          some (h₁.setReg R v) := by
        intro R
        show some (h₁.setReg R (sext32 ((h₁.cell (.gp instr.regSrc1)).setWidth 32))) = _
        rw [slot_eq hrep₁ hempty hs hrs1, hvalue, hv]
        rfl
      cases hd : gpMap instr.regDest with
      | some dest => exact hdest dest _ hd rfl (hsource dest)
      | none => exact hstore _ hd rfl (hsource .ax)

end SignExtension

/-- Where the effect of `emit_pattern_8_SEXTW` is that of `translate_ADDIW`: a result for `x0` is
what its slot held, and a source `x0` has zero in the lower half of its slot. -/
def SextwAgrees (r : RegisterInfo) (h : HostState) (instr : RiscInstr) : Prop :=
  if instr.regDest = x0 then
    extendedWord h ⟨regValue r h, h.mem⟩ instr = h.cell (.gp x0)
  else instr.regSrc1 = x0 → (h.cell (.gp x0)).setWidth 32 = 0#32

section SignExtensionAgrees

variable (flags : Flags) {g : GuestState} {r : RegisterInfo} {h : HostState} {instr : RiscInstr}

theorem step_sextw (hmnem : instr.mnem = .addiw) (himm : instr.imm = 0#64) (g : GuestState) :
    g.step instr = g.write instr.regDest (sext32 ((g.read instr.regSrc1).setWidth 32)) := by
  refine step_of_aluResult ?_
  rw [step_addiw hmnem, himm]
  exact congrArg (fun v => some (sext32 v)) (BitVec.add_zero _)

theorem sext32_injective {v w : BitVec 32} (heq : sext32 v = sext32 w) : v = w := by
  rw [← BitVec.setWidth_eq v, ← BitVec.setWidth_eq w, ← setWidth_sext32 v (Nat.le_refl 32),
    ← setWidth_sext32 w (Nat.le_refl 32), heq]

/-- The result is that of `ADDIW` unless the slot of `x0` was read. -/
theorem extendedWord_eq_iff (h : HostState) (g : GuestState) (instr : RiscInstr) :
    extendedWord h g instr = sext32 ((g.read instr.regSrc1).setWidth 32) ↔
      (instr.regSrc1 = x0 → (h.cell (.gp x0)).setWidth 32 = 0#32) := by
  unfold extendedWord sourceWord
  rw [read_eq]
  by_cases hx0 : instr.regSrc1 = x0
  · rw [if_pos hx0, if_pos hx0]
    exact ⟨fun heq _ => sext32_injective heq, fun hzero => by rw [hzero hx0]; rfl⟩
  · rw [if_neg hx0, if_neg hx0]
    exact ⟨fun _ heq => absurd heq hx0, fun _ => rfl⟩

theorem keepsZeroSlot_ADDIW (instr : RiscInstr) : KeepsZeroSlot (translateADDIW flags instr) :=
  keepsZeroSlot_source_rd flags _ fun _ _ => .bind
    (.ite (keepsZeroSlot_feEnc64 nofun) (keepsZeroSlot_onlyIf fun _ => keepsZeroSlot_feEnc64 nofun))
    fun _ => keepsZeroSlot_feEnc64 nofun

/-- The pattern for `SEXT.W` agrees where what it reads is what the guest reads, and where its
store is the guest's write. -/
theorem emitPattern8_agrees_iff (hmnem : instr.mnem = .addiw) (himm : instr.imm = 0#64)
    (hrs1 : instr.regSrc1 < 32) (hrd : instr.regDest < 32) (hwf : r.WellFormed) (h : HostState) :
    SameEffect (emitPattern8SEXTW instr) (translateADDIW flags instr) r h ↔
      SextwAgrees r h instr := by
  let g : GuestState := ⟨regValue r h, h.mem⟩
  have hrep : Represents x0 g r h := represents_self hwf h
  have hfits : FeInstr.fitsInt32 instr.imm = true := by
    rw [himm]
    rfl
  obtain ⟨r₁, h₁, hrun₁, hrep₁, -, hslot₁⟩ := emitPattern8_runs (e := false) hrep hrs1 hrd
  obtain ⟨r₂, h₂, hrun₂, hrep₂, -⟩ := simulates_ADDIW flags hmnem hrs1 hrd hfits g r h false hrep
  have hslot₂ := (keepsZeroSlot_ADDIW flags instr).runs hrun₂
  dsimp only at hrep₂
  rw [step_sextw hmnem himm] at hrep₂
  have hiff : SameEffect (emitPattern8SEXTW instr) (translateADDIW flags instr) r h ↔
      SameGuest r₁ h₁ r₂ h₂ := by
    constructor
    · rintro ⟨r₁', h₁', r₂', h₂', hrun₁', hrun₂', hsame⟩
      obtain ⟨-, hgen₁, rfl⟩ := hrun₁.unique hrun₁'
      obtain ⟨-, hgen₂, rfl⟩ := hrun₂.unique hrun₂'
      obtain rfl : r₁ = r₁' := congrArg GenState.rInfo hgen₁
      obtain rfl : r₂ = r₂' := congrArg GenState.rInfo hgen₂
      exact hsame
    · exact fun hsame => ⟨r₁, h₁, r₂, h₂, hrun₁, hrun₂, hsame⟩
  have hmem : h₁.mem = h₂.mem := by
    rw [hrep₁.mem, hrep₂.mem, GuestState.write_mem, GuestState.write_mem]
  rw [hiff]
  unfold SextwAgrees
  by_cases hx0 : instr.regDest = x0
  · -- both write `x0`, and only the pattern's code may leave something in its slot
    rw [if_pos hx0] at hslot₁ ⊢
    rw [hx0, write_x0] at hrep₁ hrep₂
    constructor
    · intro hsame
      exact hslot₁.symm.trans (hsame.zeroSlot.trans hslot₂)
    · intro heq
      exact ⟨fun x hx hlt => (hrep₁.regs x hx hx hlt).trans (hrep₂.regs x hx hx hlt).symm, hmem,
        hslot₁.trans (heq.trans hslot₂.symm)⟩
  · rw [if_neg hx0] at hslot₁ ⊢
    rw [← extendedWord_eq_iff h g instr]
    constructor
    · intro hsame
      have hvalue := hsame.regs instr.regDest hx0 hrd
      rwa [hrep₁.regs _ hx0 hx0 hrd, hrep₂.regs _ hx0 hx0 hrd, g.write_reg_self hx0,
        g.write_reg_self hx0] at hvalue
    · intro heq
      rw [heq] at hrep₁
      exact ⟨fun x hx hlt => (hrep₁.regs x hx hx hlt).trans (hrep₂.regs x hx hx hlt).symm, hmem,
        hslot₁.trans hslot₂.symm⟩

end SignExtensionAgrees

/-! ## The sign of a register -/

/-- The rejected call makes the block fail. -/
theorem emitPattern17_err (flags : Flags) (instr : RiscInstr) (s : GenState) :
    (emitPattern17SLTZ flags instr s).2.2.err = true := rfl

/-- The pattern for `SLTZ` never agrees: what it emits is rejected by the assembler. -/
theorem emitPattern17_never (flags : Flags) (instr : RiscInstr) (gen : Gen Unit)
    (r : RegisterInfo) (h : HostState) : ¬ SameEffect (emitPattern17SLTZ flags instr) gen r h := by
  rintro ⟨r₁, h₁, r₂, h₂, ⟨code, hgen, -⟩, -, -⟩
  have herr := emitPattern17_err flags instr ⟨r, false⟩
  rw [hgen] at herr
  cases herr

/-! ## Every idiom -/

section Every

variable (flags : Flags) {instr : RiscInstr}

theorem keepsZeroSlot_setZeroTest (cond : Cond) (R Rd : FeReg) :
    KeepsZeroSlot (setZeroTest cond R Rd) :=
  .bind (keepsZeroSlot_feEnc64 nofun) fun _ =>
    .bind (keepsZeroSlot_feEnc64 nofun) fun _ => keepsZeroSlot_feEnc64 nofun

theorem keepsZeroSlot_emitPattern11 : KeepsZeroSlot (emitPattern11MV flags instr) :=
  .ite (keepsZeroSlot_source_rd flags _ fun _ _ => keepsZeroSlot_moveUnlessSame _ _ _)
    (keepsZeroSlot_rd flags fun _ => keepsZeroSlot_feEnc64 nofun)

/-- The ordinary emitters of the instructions that have an idiom do not store to the slot of
`x0`. -/
theorem keepsZeroSlot_plain {plain : Flags → RiscInstr → Gen Unit}
    (hmnem : instr.mnem ∈ [.addi, .xori, .sub, .subw, .sltiu, .sltu, .slt, .andi])
    (hcore : coreEmitter instr.mnem = some plain) : KeepsZeroSlot (plain flags instr) := by
  have henc : ∀ {i : FeInstr}, i.writtenCell = none → KeepsZeroSlot (feEnc64 i) := fun hi =>
    keepsZeroSlot_feEnc64 (by rw [hi]; nofun)
  simp only [List.mem_cons, List.not_mem_nil, or_false] at hmnem
  rcases hmnem with hm | hm | hm | hm | hm | hm | hm | hm <;> rw [hm] at hcore <;>
    obtain rfl := Option.some.inj hcore
  · exact keepsZeroSlot_source_rd flags _ fun _ _ =>
      .ite (henc rfl) (keepsZeroSlot_onlyIf fun _ => henc rfl)
  · exact keepsZeroSlot_source_rd flags _ fun _ _ =>
      .bind (keepsZeroSlot_moveUnlessSame _ _ _) fun _ => henc rfl
  · exact keepsZeroSlot_rs1_rs2_rd flags fun _ _ _ =>
      .ite (.ite (henc rfl) (.bind (henc rfl) fun _ => henc rfl))
        (keepsZeroSlot_commutative _ _ _ _ _)
  · exact keepsZeroSlot_rs1_rs2_rd flags fun _ _ _ => .bind
      (.ite (.ite (henc rfl) (.bind (henc rfl) fun _ => henc rfl))
        (keepsZeroSlot_commutative _ _ _ _ _))
      fun _ => henc rfl
  · exact keepsZeroSlot_source_rd flags _ fun _ _ =>
      .bind (henc rfl) fun _ => .bind (henc rfl) fun _ => henc rfl
  · exact keepsZeroSlot_rs1_rs2_rd flags fun _ _ _ =>
      .bind (henc rfl) fun _ => .bind (henc rfl) fun _ => henc rfl
  · exact keepsZeroSlot_rs1_rs2_rd flags fun _ _ _ =>
      .bind (henc rfl) fun _ => .bind (henc rfl) fun _ => henc rfl
  · exact keepsZeroSlot_source_rd flags _ fun _ _ =>
      .bind (keepsZeroSlot_moveUnlessSame _ _ _) fun _ => henc rfl

/-- Where the emitter of an idiom has the effect of the ordinary one. -/
def IdiomAgrees (em : PatternEmitter) (instr : RiscInstr) (r : RegisterInfo) (h : HostState) :
    Prop :=
  match em with
  | .emitPattern17SLTZ => False
  | .emitPattern8SEXTW => SextwAgrees r h instr
  | _ => True

/-- An idiom whose code simulates the instruction. -/
theorem agrees_of_simulates {gen : Gen Unit} (hs : Simulates gen fun g => g.step instr)
    (hk : KeepsZeroSlot gen) (hd : instr.Decoded)
    (hmnem : instr.mnem ∈ [.addi, .xori, .sub, .subw, .sltiu, .sltu, .slt, .andi])
    {r : RegisterInfo} (hwf : r.WellFormed) (h : HostState) :
    ∃ plain, coreEmitter instr.mnem = some plain ∧
      (SameEffect gen (plain flags instr) r h ↔ True) := by
  obtain ⟨plain, hcore, hs'⟩ := simulates_coreEmitter flags hd
  exact ⟨plain, hcore, iff_of_true
    (.of_simulates hs hk hs' (keepsZeroSlot_plain flags hmnem hcore) hwf h) trivial⟩

theorem decoded_regReg (hd : instr.Decoded) (hformat : instr.mnem.format = some .regReg) :
    instr.regSrc1 < 32 ∧ instr.regSrc2 < 32 ∧ instr.regDest < 32 := by
  unfold RiscInstr.Decoded at hd
  rwa [hformat] at hd

variable {block : List RiscInstr} {j : Nat}

/-- For every match of a pattern of one element, also of one that the table order shadows, the
emitter has the effect of the ordinary one exactly where `IdiomAgrees` says so. -/
theorem idiom_agrees_iff {p : Pattern} (hp : p ∈ patterns) (hlen : p.len = 1)
    {em : PatternEmitter} (hem : p.emitter = some em) (hocc : Occurs block p j)
    (hwindow : window block p j = [instr]) (hd : instr.Decoded) {r : RegisterInfo}
    (hwf : r.WellFormed) (h : HostState) :
    ∃ gen, emitPattern flags em [instr] = some gen ∧
      ∃ plain, coreEmitter instr.mnem = some plain ∧
        (SameEffect gen (plain flags instr) r h ↔ IdiomAgrees em instr r h) := by
  have hsingle : ∀ p ∈ patterns, p.len = 1 →
      p ∈ [⟨p11Elem, 1, some .emitPattern11MV⟩, ⟨p20Elem, 1, some .emitPattern20SmallLI⟩,
        ⟨p8Elem, 1, some .emitPattern8SEXTW⟩, ⟨p22Elem, 1, some .emitPattern22⟩,
        ⟨p10Elem, 1, some .emitPattern10NOP⟩, ⟨p12Elem, 1, some .emitPattern12NOT⟩,
        ⟨p13Elem, 1, some .emitPattern13NEG⟩, ⟨p14Elem, 1, some .emitPattern14NEGW⟩,
        ⟨p15Elem, 1, some .emitPattern15SEQZ⟩, ⟨p16Elem, 1, some .emitPattern16SNEZ⟩,
        ⟨p17Elem, 1, some .emitPattern17SLTZ⟩, ⟨p18Elem, 1, some .emitPattern18SGTZ⟩] := by decide
  have hshape := hsingle p hp hlen
  have hwf' := patterns_wellFormed hp
  have hzero : (window block p j)[0]? = some instr := by rw [hwindow]; rfl
  -- what the single element says
  have helem : ∀ elem, p.elements = [elem] → elem.mnem = instr.mnem ∧
      (elem.rs1 = x0 → instr.regSrc1 = x0) ∧ (elem.rd = x0 → instr.regDest = x0) ∧
      (elem.imm = 1 → instr.imm = BitVec.ofInt 64 elem.immValue) := by
    intro elem helems
    obtain ⟨hmnem, hrs1, -, hrd, himm⟩ := hocc.element hwf' (by rw [helems]; rfl) hzero
    refine ⟨hmnem, fun hx0 => ?_, fun hx0 => ?_, imm_of_match himm⟩
    · unfold matchRs1 at hrs1
      rw [hx0] at hrs1
      exact beq_iff_eq.1 (Option.some.inj hrs1)
    · unfold matchRd at hrd
      rw [hx0] at hrd
      exact beq_iff_eq.1 (Option.some.inj hrd)
  simp only [List.mem_cons, List.not_mem_nil, or_false] at hshape
  rcases hshape with rfl | rfl | rfl | rfl | rfl | rfl | rfl | rfl | rfl | rfl | rfl | rfl <;>
    obtain rfl := Option.some.inj hem <;> refine ⟨_, rfl, ?_⟩ <;>
    obtain ⟨hmnem, hrs1x, hrdx, himm⟩ := helem _ rfl
  · obtain ⟨hrs1, hrd, -⟩ := decoded_immediate hd (by rw [← hmnem]; rfl)
    exact agrees_of_simulates flags
      (simulates_emitPattern11MV flags hmnem.symm (himm rfl) hrs1 hrd)
      (keepsZeroSlot_emitPattern11 flags) hd (by rw [← hmnem]; decide) hwf h
  · obtain ⟨-, hrd, -⟩ := decoded_immediate hd (by rw [← hmnem]; rfl)
    exact agrees_of_simulates flags
      (simulates_emitPattern20SmallLI flags hmnem.symm (hrs1x rfl) hrd)
      (keepsZeroSlot_rd flags fun _ => keepsZeroSlot_feEnc64 nofun) hd (by rw [← hmnem]; decide)
      hwf h
  · obtain ⟨hrs1, hrd, -⟩ := decoded_immediate hd (by rw [← hmnem]; rfl)
    exact ⟨_, by rw [← hmnem]; rfl,
      emitPattern8_agrees_iff flags hmnem.symm (himm rfl) hrs1 hrd hwf h⟩
  · obtain ⟨hrs1, hrd, -⟩ := decoded_immediate hd (by rw [← hmnem]; rfl)
    exact agrees_of_simulates flags (simulates_emitPattern22 flags hmnem.symm (himm rfl) hrs1 hrd)
      (keepsZeroSlot_source_rd flags _ fun _ _ => keepsZeroSlot_feEnc64 nofun) hd
      (by rw [← hmnem]; decide) hwf h
  · exact agrees_of_simulates flags (simulates_emitPattern10NOP hmnem.symm (hrdx rfl))
      (keepsZeroSlot_feEnc64 nofun) hd (by rw [← hmnem]; decide) hwf h
  · obtain ⟨hrs1, hrd, -⟩ := decoded_immediate hd (by rw [← hmnem]; rfl)
    exact agrees_of_simulates flags
      (simulates_emitPattern12NOT flags hmnem.symm (himm rfl) hrs1 hrd)
      (keepsZeroSlot_source_rd flags _ fun _ _ =>
        .bind (keepsZeroSlot_moveUnlessSame _ _ _) fun _ => keepsZeroSlot_feEnc64 nofun) hd
      (by rw [← hmnem]; decide) hwf h
  · obtain ⟨-, hrs2, hrd⟩ := decoded_regReg hd (by rw [← hmnem]; rfl)
    exact agrees_of_simulates flags
      (simulates_emitPattern13NEG flags hmnem.symm (hrs1x rfl) hrs2 hrd)
      (keepsZeroSlot_source_rd flags _ fun _ _ =>
        .bind (keepsZeroSlot_moveUnlessSame _ _ _) fun _ => keepsZeroSlot_feEnc64 nofun) hd
      (by rw [← hmnem]; decide) hwf h
  · obtain ⟨-, hrs2, hrd⟩ := decoded_regReg hd (by rw [← hmnem]; rfl)
    exact agrees_of_simulates flags
      (simulates_emitPattern14NEGW flags hmnem.symm (hrs1x rfl) hrs2 hrd)
      (keepsZeroSlot_source_rd flags _ fun _ _ => .bind
        (keepsZeroSlot_moveUnlessSame _ _ _) fun _ =>
        .bind (keepsZeroSlot_feEnc64 nofun) fun _ => keepsZeroSlot_feEnc64 nofun) hd
      (by rw [← hmnem]; decide) hwf h
  · obtain ⟨hrs1, hrd, -⟩ := decoded_immediate hd (by rw [← hmnem]; rfl)
    exact agrees_of_simulates flags
      (simulates_emitPattern15SEQZ flags hmnem.symm (himm rfl) hrs1 hrd)
      (keepsZeroSlot_source_rd flags _ fun _ _ => keepsZeroSlot_setZeroTest _ _ _) hd
      (by rw [← hmnem]; decide) hwf h
  · obtain ⟨-, hrs2, hrd⟩ := decoded_regReg hd (by rw [← hmnem]; rfl)
    exact agrees_of_simulates flags
      (simulates_emitPattern16SNEZ flags hmnem.symm (hrs1x rfl) hrs2 hrd)
      (keepsZeroSlot_source_rd flags _ fun _ _ => keepsZeroSlot_setZeroTest _ _ _) hd
      (by rw [← hmnem]; decide) hwf h
  · exact ⟨_, by rw [← hmnem]; rfl, iff_of_false (emitPattern17_never flags instr _ r h) id⟩
  · obtain ⟨-, hrs2, hrd⟩ := decoded_regReg hd (by rw [← hmnem]; rfl)
    exact agrees_of_simulates flags
      (simulates_emitPattern18SGTZ flags hmnem.symm (hrs1x rfl) hrs2 hrd)
      (keepsZeroSlot_source_rd flags _ fun _ _ => keepsZeroSlot_setZeroTest _ _ _) hd
      (by rw [← hmnem]; decide) hwf h

end Every

/-! ## A sign that is tested -/

/-- `SLT x5, x6, x0`. -/
def signTest : RiscInstr := ⟨0x10000#64, .slt, .regReg, 6, 0, 5, 0#64⟩

/-- `{p_17_elem, 1, &emit_pattern_17_SLTZ}` of `patterns`. -/
def pattern17 : Pattern := ⟨p17Elem, 1, some .emitPattern17SLTZ⟩

theorem signTest_occurs : Occurs [signTest] pattern17 0 := by
  unfold Occurs
  decide

theorem idiom_agrees_iff_signTest :
    ∃ gen, emitPattern {} .emitPattern17SLTZ [signTest] = some gen ∧
      ∃ plain, coreEmitter signTest.mnem = some plain ∧
        (SameEffect gen (plain {} signTest) (TransState.initial 0#64).rInfo zeroHost ↔
          IdiomAgrees .emitPattern17SLTZ signTest (TransState.initial 0#64).rInfo zeroHost) :=
  idiom_agrees_iff {} (by decide) rfl rfl signTest_occurs rfl (by decide) (wellFormed_initial 0#64)
    zeroHost

/-- The block of `SLT x5, x6, x0` fails with fusion, and the ordinary emitter translates it. -/
theorem signTest_differs :
    ¬ ∀ (flags : Flags) (block : List RiscInstr) (j : Nat) (instr : RiscInstr) (p : Pattern)
      (em : PatternEmitter) (gen : Gen Unit) (plain : Flags → RiscInstr → Gen Unit)
      (r : RegisterInfo) (h : HostState), p ∈ patterns → p.len = 1 → p.emitter = some em →
      Occurs block p j → window block p j = [instr] → instr.Decoded → r.WellFormed →
      emitPattern flags em [instr] = some gen → coreEmitter instr.mnem = some plain →
      SameEffect gen (plain flags instr) r h := by
  intro hall
  exact emitPattern17_never {} signTest _ _ _
    (hall {} [signTest] 0 signTest pattern17 _ _ _ _ zeroHost
      (by decide) rfl rfl signTest_occurs rfl
      (by decide) (wellFormed_initial 0#64) rfl rfl)

end RiaJit.Translate
