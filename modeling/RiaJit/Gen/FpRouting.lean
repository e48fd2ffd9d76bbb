import RiaJit.Gen.FpArithmetic
import RiaJit.X86.RoundedArithmetic

/-!
# Routing of floating-point operands

The code for an instruction computes its result from the values that its operands had before,
whichever of them are mapped and however they coincide, and changes no other register. The one
exception is a difference of a register and itself that goes to the same register: it is set to
zero without a subtraction.
-/

set_option autoImplicit false

namespace RiaJit.Translate

open EmitLogic X86

/-- The value of a floating-point register. -/
def fpValue (m : FpMapping) (h : SseState) (reg : Nat) : BitVec 64 :=
  match m.fpMap reg with
  | some r => h.xmm r
  | none => h.cell (.fp reg)

/-! ## What code changes -/

/-- Neither the integer part, but for the flags, nor `MXCSR` changes. -/
structure Calm (h h' : SseState) : Prop where
  reg : h'.host.reg = h.host.reg
  cell : h'.host.cell = h.host.cell
  mem : h'.host.mem = h.host.mem
  stack : h'.host.stack = h.host.stack
  mxcsr : h'.mxcsr = h.mxcsr

/-- At most one SSE register changes. -/
structure Changes (r : XmmReg) (h h' : SseState) : Prop where
  calm : Calm h h'
  fp : ∀ reg, h'.cell (.fp reg) = h.cell (.fp reg)
  xmm : ∀ q, q ≠ r → h'.xmm q = h.xmm q

/-- At most the replacements and one more SSE register have changed. -/
structure Working (d : XmmReg) (h h' : SseState) : Prop where
  calm : Calm h h'
  fp : ∀ reg, h'.cell (.fp reg) = h.cell (.fp reg)
  xmm : ∀ q, q ≠ firstFpReg → q ≠ secondFpReg → q ≠ d → h'.xmm q = h.xmm q

section Changed

variable {m : FpMapping} {h h₁ h₂ : SseState} {r d : XmmReg} {reg : Nat}

theorem Calm.refl (h : SseState) : Calm h h := ⟨rfl, rfl, rfl, rfl, rfl⟩

/-- What two pieces of code leave alone, both together leave alone. -/
theorem Calm.trans (hc : Calm h h₁) (hc' : Calm h₁ h₂) : Calm h h₂ :=
  ⟨hc'.reg.trans hc.reg, hc'.cell.trans hc.cell, hc'.mem.trans hc.mem, hc'.stack.trans hc.stack,
    hc'.mxcsr.trans hc.mxcsr⟩

theorem Working.refl (d : XmmReg) (h : SseState) : Working d h h :=
  ⟨.refl h, fun _ => rfl, fun _ _ _ _ => rfl⟩

/-- Code may go on working with the three registers. -/
theorem Working.step (hw : Working d h h₁) (hc : Changes r h₁ h₂)
    (hr : r = firstFpReg ∨ r = secondFpReg ∨ r = d) : Working d h h₂ := by
  refine ⟨hw.calm.trans hc.calm, fun reg => (hc.fp reg).trans (hw.fp reg), fun q hq hq' hqd => ?_⟩
  have hne : q ≠ r := by
    rintro rfl
    rcases hr with hr | hr | hr
    · exact hq hr
    · exact hq' hr
    · exact hqd hr
  rw [hc.xmm q hne, hw.xmm q hq hq' hqd]

/-- The destination may from now on be written. -/
theorem Working.widen (hw : Working firstFpReg h h₁) (d : XmmReg) : Working d h h₁ :=
  ⟨hw.calm, hw.fp, fun q hq hq' _ => hw.xmm q hq hq' hq⟩

/-- A register that is not kept in the destination has its value still. -/
theorem Working.value (hw : Working d h h₁) (hd : m.fpMap reg ≠ some d) :
    fpValue m h₁ reg = fpValue m h reg := by
  unfold fpValue
  cases hmap : m.fpMap reg with
  | none => exact hw.fp reg
  | some r =>
      refine hw.xmm r ?_ ?_ ?_
      · rintro rfl
        exact m.first reg hmap
      · rintro rfl
        exact m.second reg hmap
      · rintro rfl
        exact hd hmap

/-- While the first replacement is worked on, every register keeps its value. -/
theorem Working.value_of_first (hw : Working firstFpReg h h₁) (reg : Nat) :
    fpValue m h₁ reg = fpValue m h reg := hw.value (m.first reg)

end Changed

/-! ## Single instructions -/

section Steps

variable (ops : SseArithmetic) (form : FpForm) (s : FpGenState) (h : SseState)

theorem changes_setXmm (r : XmmReg) (v : BitVec 64) : Changes r h (h.setXmm r v) :=
  ⟨⟨rfl, rfl, rfl, rfl, rfl⟩, fun _ => rfl, fun _ hq => Function.update_of_ne hq _ _⟩

/-- A move copies the scalar. -/
theorem movrr_runs (dst src : XmmReg) :
    ∃ h', Runs (SseInstr.exec ops) (Gen.emit (.movrr form dst src)) s h () s h' ∧
      Changes dst h h' ∧ form.get (h'.xmm dst) = form.get (h.xmm src) := by
  refine ⟨_, .emit s rfl, changes_setXmm h dst _, ?_⟩
  show form.get (Function.update h.xmm dst _ dst) = _
  rw [Function.update_self, FpForm.get_put]

/-- An operation works on its destination. -/
theorem arithrr_runs (op : SseOp) (dst src : XmmReg) :
    ∃ h', Runs (SseInstr.exec ops) (Gen.emit (.arithrr op form dst src)) s h () s h' ∧
      Changes dst h h' ∧ form.get (h'.xmm dst) =
        ops.arith op form h.mxcsr (form.get (h.xmm dst)) (form.get (h.xmm src)) := by
  refine ⟨_, .emit s rfl, changes_setXmm h dst _, ?_⟩
  show form.get (Function.update h.xmm dst _ dst) = _
  rw [Function.update_self, FpForm.get_put]

/-- A square root goes from one register to another. -/
theorem sqrtrr_runs (dst src : XmmReg) :
    ∃ h', Runs (SseInstr.exec ops) (Gen.emit (.sqrtrr form dst src)) s h () s h' ∧
      Changes dst h h' ∧
      form.get (h'.xmm dst) = ops.sqrt form h.mxcsr (form.get (h.xmm src)) := by
  refine ⟨_, .emit s rfl, changes_setXmm h dst _, ?_⟩
  show form.get (Function.update h.xmm dst _ dst) = _
  rw [Function.update_self, FpForm.get_put]

/-- A register is set to zero. -/
theorem xorrr_runs (r : XmmReg) :
    ∃ h', Runs (SseInstr.exec ops) (Gen.emit (.xorrr form r r)) s h () s h' ∧
      Changes r h h' ∧ form.get (h'.xmm r) = BitVec.ofNat form.width 0 := by
  refine ⟨_, .emit s rfl, changes_setXmm h r _, ?_⟩
  show form.get (Function.update h.xmm r (h.xmm r ^^^ h.xmm r) r) = _
  rw [Function.update_self, BitVec.xor_self, FpForm.get_zero]

/-- Whether or not a move is needed, the value is in the register after it. -/
theorem moveIf_runs {c : Prop} [Decidable c] {dst src : XmmReg} (hc : ¬ c → src = dst) :
    ∃ h', Runs (SseInstr.exec ops) (ifNeeded c (Gen.emit (.movrr form dst src))) s h () s h' ∧
      Changes dst h h' ∧ form.get (h'.xmm dst) = form.get (h.xmm src) := by
  unfold ifNeeded
  split
  · exact movrr_runs ops form s h dst src
  · rename_i hsame
    rw [hc hsame]
    exact ⟨h, .ret () s h, ⟨.refl h, fun _ => rfl, fun _ _ => rfl⟩, rfl⟩

/-- An operand that has to be saved is in the other register after it. -/
theorem saveIf_runs (c : Prop) [Decidable c] (into operand : XmmReg) :
    ∃ r h', Runs (SseInstr.exec ops) (saveIf c form into operand) s h r s h' ∧
      Changes into h h' ∧ form.get (h'.xmm r) = form.get (h.xmm operand) ∧
      (c ∧ r = into ∨ ¬ c ∧ r = operand) := by
  unfold saveIf
  split
  · rename_i hc
    obtain ⟨h', hrun, hch, hval⟩ := movrr_runs ops form s h into operand
    exact ⟨into, h', .bind hrun (.ret into s h'), hch, hval, .inl ⟨hc, rfl⟩⟩
  · rename_i hc
    exact ⟨operand, h, .ret operand s h, ⟨.refl h, fun _ => rfl, fun _ _ => rfl⟩, rfl,
      .inr ⟨hc, rfl⟩⟩

end Steps

/-! ## The helpers -/

section Helpers

variable (ops : SseArithmetic) (flags : Flags) (m : FpMapping) (s : FpGenState) (h : SseState)

/-- The profile is neither a register nor a part of the register file. -/
theorem recordFpProfiler_runs (reg : Nat) :
    ∃ h', Runs (SseInstr.exec ops) (recordFpProfiler flags reg) s h () s h' ∧ Calm h h' ∧
      (∀ x, h'.cell (.fp x) = h.cell (.fp x)) ∧ h'.xmm = h.xmm := by
  unfold recordFpProfiler ifNeeded
  split
  · refine ⟨_, .emit s rfl, ⟨rfl, rfl, rfl, rfl, rfl⟩, fun x => ?_, rfl⟩
    show Function.update h.cell (.fpUsage reg) (h.cell (.fpUsage reg) + 1#64) (.fp x) = _
    exact Function.update_of_ne (fun heq => SseCell.noConfusion heq) _ h.cell
  · exact ⟨h, .ret () s h, .refl h, fun _ => rfl, rfl⟩

/-- Where an operand is: in its own register or in the replacement. -/
def FpOperand (m : FpMapping) (reg : Nat) (replacement r : XmmReg) : Prop :=
  r = replacement ∨ m.fpMap reg = some r

/-- A source is delivered with its value, in its own register or in the replacement. -/
theorem getFpReg_runs (reg : Nat) (replacement : XmmReg) :
    ∃ r h', Runs (SseInstr.exec ops) (getFpReg flags m reg replacement) s h r s h' ∧
      Changes replacement h h' ∧ h'.xmm r = fpValue m h reg ∧ FpOperand m reg replacement r := by
  obtain ⟨h₁, hrun, hcalm, hcell, hxmm⟩ := recordFpProfiler_runs ops flags s h reg
  unfold getFpReg fpValue FpOperand
  cases hmap : m.fpMap reg with
  | none =>
      have hload : Runs (SseInstr.exec ops) (Gen.emit (.movsdrm replacement (.fp reg))) s h₁ () s
          (h₁.setXmm replacement (h₁.cell (.fp reg))) := .emit s rfl
      have hch := changes_setXmm h₁ replacement (h₁.cell (.fp reg))
      refine ⟨replacement, _, .bind hrun (.bind hload (.ret _ s _)), ⟨hcalm.trans hch.calm,
        fun x => ?_, fun q hq => ?_⟩, ?_, .inl rfl⟩
      · rw [hch.fp, hcell]
      · rw [hch.xmm q hq, hxmm]
      · show Function.update h₁.xmm replacement _ replacement = _
        rw [Function.update_self, hcell]
  | some r =>
      refine ⟨r, h₁, .bind hrun (.ret r s h₁), ⟨hcalm, hcell, fun q _ => ?_⟩, ?_,
        .inr rfl⟩
      · rw [hxmm]
      · rw [hxmm]

/-- The register of a destination is known without a load. -/
theorem getFpRegNoLoad_runs (reg : Nat) (replacement r : XmmReg) :
    ∃ h', Runs (SseInstr.exec ops) (getFpRegNoLoad flags m reg replacement) s h
        ((m.fpMap reg).getD replacement) s h' ∧ Changes r h h' ∧ h'.xmm = h.xmm := by
  obtain ⟨h₁, hrun, hcalm, hcell, hxmm⟩ := recordFpProfiler_runs ops flags s h reg
  refine ⟨h₁, .bind hrun (.ret _ s h₁), ⟨hcalm, hcell, fun q _ => ?_⟩, hxmm⟩
  rw [hxmm]

/-- Where the destination is: in its own register or, unmapped, in the replacement. -/
def FpTarget (m : FpMapping) (reg : Nat) (replacement d : XmmReg) : Prop :=
  m.fpMap reg = some d ∨ m.fpMap reg = none ∧ d = replacement

theorem target_getD (reg : Nat) (replacement : XmmReg) :
    FpTarget m reg replacement ((m.fpMap reg).getD replacement) := by
  unfold FpTarget
  cases m.fpMap reg with
  | none => exact .inr ⟨rfl, rfl⟩
  | some r => exact .inl rfl

variable {m} {reg : Nat} {d replacement : XmmReg}

/-- An operand loaded into the second replacement is not in the first. -/
theorem FpOperand.ne_first {r : XmmReg} (ho : FpOperand m reg secondFpReg r) : r ≠ firstFpReg := by
  rintro rfl
  rcases ho with heq | hmap
  · exact absurd heq (by decide)
  · exact m.first reg hmap

/-- An operand loaded into the first replacement is not in the second. -/
theorem FpOperand.ne_second {r : XmmReg} (ho : FpOperand m reg firstFpReg r) : r ≠ secondFpReg := by
  rintro rfl
  rcases ho with heq | hmap
  · exact absurd heq (by decide)
  · exact m.second reg hmap

/-- A destination is where an operand would be. -/
theorem FpTarget.operand (ht : FpTarget m reg replacement d) : FpOperand m reg replacement d :=
  ht.elim .inr fun h => .inl h.2

/-- No other floating-point register is kept where the destination is. -/
theorem FpTarget.unshared (ht : FpTarget m reg replacement d)
    (hr : replacement = firstFpReg ∨ replacement = secondFpReg) {x : Nat} (hx : x ≠ reg) :
    m.fpMap x ≠ some d := by
  intro hmap
  rcases ht with hd | ⟨-, rfl⟩
  · exact hx (m.injective x reg d hmap hd)
  · rcases hr with rfl | rfl
    · exact m.first x hmap
    · exact m.second x hmap

/-- The result is in the register, and all others are as they were before. -/
structure Delivers (m : FpMapping) (reg : Nat) (v : BitVec 64) (h h' : SseState) : Prop where
  value : fpValue m h' reg = v
  others : ∀ x, x ≠ reg → fpValue m h' x = fpValue m h x
  calm : Calm h h'

/-- What was computed is delivered to the register of the guest. -/
theorem setFpReg_runs {h₀ : SseState} (ht : FpTarget m reg replacement d)
    (hr : replacement = firstFpReg ∨ replacement = secondFpReg) (hw : Working d h₀ h) :
    ∃ h', Runs (SseInstr.exec ops) (setFpReg flags m reg d) s h () s h' ∧
      Delivers m reg (h.xmm d) h₀ h' := by
  obtain ⟨h₁, hrun, hcalm, hcell, hxmm⟩ := recordFpProfiler_runs ops flags s h reg
  have hothers : ∀ x, x ≠ reg → fpValue m h₁ x = fpValue m h₀ x := by
    intro x hx
    rw [← hw.value (ht.unshared hr hx)]
    unfold fpValue
    rw [hxmm, hcell]
  unfold setFpReg ifNeeded
  split
  · -- an unmapped register is stored into its slot
    rename_i hmap
    have hstore : Runs (SseInstr.exec ops) (Gen.emit (.movsdmr (.fp reg) d)) s h₁ () s
        (h₁.setCell (.fp reg) (h₁.xmm d)) := .emit s rfl
    refine ⟨_, .bind hrun hstore, ?_, fun x hx => ?_, hw.calm.trans (hcalm.trans ⟨rfl, rfl, rfl,
      rfl, rfl⟩)⟩
    · unfold fpValue
      rw [hmap]
      show Function.update h₁.cell (.fp reg) (h₁.xmm d) (.fp reg) = _
      rw [Function.update_self, hxmm]
    · rw [← hothers x hx]
      unfold fpValue
      cases m.fpMap x with
      | none =>
          show Function.update h₁.cell (.fp reg) (h₁.xmm d) (.fp x) = _
          exact Function.update_of_ne (fun heq => hx (SseCell.fp.inj heq)) _ _
      | some r => rfl
  · -- a mapped register was the target itself
    rename_i hmap
    refine ⟨h₁, .bind hrun (.ret () s h₁), ?_, hothers, hw.calm.trans hcalm⟩
    rcases ht with hd | ⟨hnone, -⟩
    · unfold fpValue
      rw [hd, hxmm]
    · exact absurd hnone hmap

/-- With the dynamic mode there is nothing around the code. -/
theorem withRound_runs {instr : RiscInstr} {g : FpGen Unit} {h' : SseState}
    (hdyn : instr.roundingMode = dyn) (hg : Runs (SseInstr.exec ops) g s h () s h') :
    Runs (SseInstr.exec ops) (withRound flags instr g) s h () s h' := by
  unfold withRound ifNeeded
  rw [if_neg (not_not.2 hdyn), if_neg (not_not.2 hdyn)]
  exact .bind (.ret () s h) (.bind hg (.ret () s h'))

end Helpers

/-! ## The instructions -/

section Instructions

variable (ops : SseArithmetic) (form : FpForm) (flags : Flags) (m : FpMapping) (s : FpGenState)
  (h : SseState) (instr : RiscInstr)

/-- The code runs, delivers a value with this scalar to `rd` and changes nothing else. -/
def Yields (g : FpGen Unit) (x : BitVec form.width) : Prop :=
  ∃ v h', Runs (SseInstr.exec ops) g s h () s h' ∧ Delivers m instr.regDest v h h' ∧
    form.get v = x

/-- The scalar in a register. -/
def scalar (form : FpForm) (m : FpMapping) (h : SseState) (reg : Nat) : BitVec form.width :=
  form.get (fpValue m h reg)

/-- The product is in the second replacement, and no register has changed. -/
theorem fusedProduct_runs (hint : XmmReg) :
    ∃ r h', Runs (SseInstr.exec ops) (fusedProduct form flags m instr hint) s h
        (r, (m.fpMap instr.regDest).getD hint) s h' ∧
      r ≠ firstFpReg ∧ Working firstFpReg h h' ∧
      form.get (h'.xmm secondFpReg) = ops.arith .mul form h.mxcsr
        (scalar form m h instr.regSrc1) (scalar form m h instr.regSrc2) := by
  obtain ⟨r₁, h₁, hrun₁, hch₁, hval₁, ho₁⟩ :=
    getFpReg_runs ops flags m s h instr.regSrc1 secondFpReg
  obtain ⟨r₂, h₂, hrun₂, hch₂, hval₂, ho₂⟩ :=
    getFpReg_runs ops flags m s h₁ instr.regSrc2 firstFpReg
  obtain ⟨h₃, hrun₃, hch₃, hxmm₃⟩ :=
    getFpRegNoLoad_runs ops flags m s h₂ instr.regDest hint firstFpReg
  obtain ⟨h₄, hrun₄, hch₄, hval₄⟩ :=
    moveIf_runs ops form s h₃ (not_not.1 : ¬ r₁ ≠ secondFpReg → r₁ = secondFpReg)
  obtain ⟨h₅, hrun₅, hch₅, hval₅⟩ := arithrr_runs ops form s h₄ .mul secondFpReg r₂
  have hw₁ := (Working.refl firstFpReg h).step hch₁ (.inr (.inl rfl))
  have hw₄ := ((hw₁.step hch₂ (.inl rfl)).step hch₃ (.inl rfl)).step hch₄ (.inr (.inl rfl))
  refine ⟨r₁, h₅, .bind hrun₁ (.bind hrun₂ (.bind hrun₃ (.bind hrun₄ (.bind hrun₅
    (.ret _ s h₅))))), ho₁.ne_first, hw₄.step hch₅ (.inr (.inl rfl)), ?_⟩
  -- `rs1` is not lost when `rs2` is loaded, nor `rs2` when `rs1` is moved
  have hx₁ : form.get (h₄.xmm secondFpReg) = scalar form m h instr.regSrc1 := by
    rw [hval₄, hxmm₃, hch₂.xmm r₁ ho₁.ne_first, hval₁]
    rfl
  have hx₂ : form.get (h₄.xmm r₂) = scalar form m h instr.regSrc2 := by
    rw [hch₄.xmm r₂ ho₂.ne_second, hxmm₃, hval₂, hw₁.value_of_first]
    rfl
  rw [hval₅, hx₁, hx₂, hw₄.calm.mxcsr]

/-- `FMADD` adds the third operand to the product. -/
theorem fmadd_yields (hcomm : ops.Commutes) (hdyn : instr.roundingMode = dyn) :
    Yields ops form m s h instr (translateFMADD form flags m instr)
      (ops.arith .add form h.mxcsr
        (ops.arith .mul form h.mxcsr (scalar form m h instr.regSrc1)
          (scalar form m h instr.regSrc2))
        (scalar form m h instr.regSrc3.toNat)) := by
  obtain ⟨r, h₁, hrun₁, -, hw₁, hproduct⟩ :=
    fusedProduct_runs ops form flags m s h instr firstFpReg
  have ht := target_getD m instr.regDest firstFpReg
  generalize (m.fpMap instr.regDest).getD firstFpReg = d at hrun₁ ht
  obtain ⟨r₃, h₂, hrun₂, hch₂, hval₂, -⟩ := getFpReg_runs ops flags m s h₁ instr.regSrc3.toNat d
  obtain ⟨h₃, hrun₃, hch₃, hval₃⟩ :=
    moveIf_runs ops form s h₂ (not_not.1 : ¬ r₃ ≠ d → r₃ = d)
  obtain ⟨h₄, hrun₄, hch₄, hval₄⟩ := arithrr_runs ops form s h₃ .add d secondFpReg
  have hw₃ := ((hw₁.widen d).step hch₂ (.inr (.inr rfl))).step hch₃ (.inr (.inr rfl))
  obtain ⟨h', hrun, hdelivers⟩ :=
    setFpReg_runs ops flags s h₄ ht (.inl rfl) (hw₃.step hch₄ (.inr (.inr rfl)))
  refine ⟨_, h', withRound_runs ops flags s h hdyn (.bind hrun₁ (.bind hrun₂ (.bind hrun₃
    (.bind hrun₄ hrun)))), hdelivers, ?_⟩
  -- `rs3` goes to the destination while the product waits in the second replacement
  have hne : secondFpReg ≠ d := ht.operand.ne_second.symm
  rw [hval₄, hval₃, hval₂, hw₁.value_of_first, hch₃.xmm _ hne, hch₂.xmm _ hne, hproduct,
    hw₃.calm.mxcsr]
  exact hcomm.add form _ _ _

/-- `FMSUB` subtracts the third operand from the product. -/
theorem fmsub_yields (hdyn : instr.roundingMode = dyn) :
    Yields ops form m s h instr (translateFMSUB form flags m instr)
      (ops.arith .sub form h.mxcsr
        (ops.arith .mul form h.mxcsr (scalar form m h instr.regSrc1)
          (scalar form m h instr.regSrc2))
        (scalar form m h instr.regSrc3.toNat)) := by
  obtain ⟨r, h₁, hrun₁, hr, hw₁, hproduct⟩ :=
    fusedProduct_runs ops form flags m s h instr secondFpReg
  have ht := target_getD m instr.regDest secondFpReg
  generalize (m.fpMap instr.regDest).getD secondFpReg = d at hrun₁ ht
  obtain ⟨r₃, h₂, hrun₂, hch₂, hval₂, ho₃⟩ :=
    getFpReg_runs ops flags m s h₁ instr.regSrc3.toNat firstFpReg
  obtain ⟨r₄, h₃, hrun₃, hch₃, hval₃, hcase⟩ := saveIf_runs ops form s h₂ (d = r₃) firstFpReg r₃
  obtain ⟨h₄, hrun₄, hch₄, hval₄⟩ :=
    moveIf_runs ops form s h₃ (fun hnot => absurd hr hnot : ¬ r ≠ firstFpReg → secondFpReg = d)
  obtain ⟨h₅, hrun₅, hch₅, hval₅⟩ := arithrr_runs ops form s h₄ .sub d r₄
  have hw₃ := (hw₁.step hch₂ (.inl rfl)).step hch₃ (.inl rfl)
  have hw₄ := (hw₃.widen d).step hch₄ (.inr (.inr rfl))
  obtain ⟨h', hrun, hdelivers⟩ :=
    setFpReg_runs ops flags s h₅ ht (.inr rfl) (hw₄.step hch₅ (.inr (.inr rfl)))
  refine ⟨_, h', withRound_runs ops flags s h hdyn (.bind hrun₁ (.bind hrun₂ (.bind hrun₃
    (.bind hrun₄ (.bind hrun₅ hrun))))), hdelivers, ?_⟩
  -- `rs3` is not where the product goes, or was saved
  have hne : r₄ ≠ d := by
    rcases hcase with ⟨-, rfl⟩ | ⟨hne, rfl⟩
    · exact ht.operand.ne_first.symm
    · exact fun heq => hne heq.symm
  have hsecond : secondFpReg ≠ firstFpReg := by decide
  rw [hval₅, hval₄, hch₃.xmm _ hsecond, hch₂.xmm _ hsecond, hproduct, hch₄.xmm _ hne, hval₃, hval₂,
    hw₁.value_of_first, hw₄.calm.mxcsr]
  rfl

/-- `FNMSUB` subtracts the product from the third operand. -/
theorem fnmsub_yields (hdyn : instr.roundingMode = dyn) :
    Yields ops form m s h instr (translateFNMSUB form flags m instr)
      (ops.arith .sub form h.mxcsr (scalar form m h instr.regSrc3.toNat)
        (ops.arith .mul form h.mxcsr (scalar form m h instr.regSrc1)
          (scalar form m h instr.regSrc2))) := by
  obtain ⟨r, h₁, hrun₁, -, hw₁, hproduct⟩ :=
    fusedProduct_runs ops form flags m s h instr firstFpReg
  have ht := target_getD m instr.regDest firstFpReg
  generalize (m.fpMap instr.regDest).getD firstFpReg = d at hrun₁ ht
  obtain ⟨r₃, h₂, hrun₂, hch₂, hval₂, -⟩ :=
    getFpReg_runs ops flags m s h₁ instr.regSrc3.toNat firstFpReg
  obtain ⟨h₃, hrun₃, hch₃, hval₃⟩ :=
    moveIf_runs ops form s h₂ (fun hnot => (not_not.1 hnot).symm : ¬ d ≠ r₃ → r₃ = d)
  obtain ⟨h₄, hrun₄, hch₄, hval₄⟩ := arithrr_runs ops form s h₃ .sub d secondFpReg
  have hw₃ := ((hw₁.step hch₂ (.inl rfl)).widen d).step hch₃ (.inr (.inr rfl))
  obtain ⟨h', hrun, hdelivers⟩ :=
    setFpReg_runs ops flags s h₄ ht (.inl rfl) (hw₃.step hch₄ (.inr (.inr rfl)))
  refine ⟨_, h', withRound_runs ops flags s h hdyn (.bind hrun₁ (.bind hrun₂ (.bind hrun₃
    (.bind hrun₄ hrun)))), hdelivers, ?_⟩
  have hne : secondFpReg ≠ d := ht.operand.ne_second.symm
  have hsecond : secondFpReg ≠ firstFpReg := by decide
  rw [hval₄, hval₃, hval₂, hw₁.value_of_first, hch₃.xmm _ hne, hch₂.xmm _ hsecond, hproduct,
    hw₃.calm.mxcsr]
  rfl

/-- `FNMADD` negates the product and subtracts the third operand. -/
theorem fnmadd_yields (hdyn : instr.roundingMode = dyn) :
    Yields ops form m s h instr (translateFNMADD form flags m instr)
      (ops.arith .sub form h.mxcsr
        (ops.arith .sub form h.mxcsr (BitVec.ofNat form.width 0)
          (ops.arith .mul form h.mxcsr (scalar form m h instr.regSrc1)
            (scalar form m h instr.regSrc2)))
        (scalar form m h instr.regSrc3.toNat)) := by
  obtain ⟨r, h₁, hrun₁, -, hw₁, hproduct⟩ :=
    fusedProduct_runs ops form flags m s h instr firstFpReg
  have ht := target_getD m instr.regDest firstFpReg
  generalize (m.fpMap instr.regDest).getD firstFpReg = d at hrun₁ ht
  -- zero, minus the product, minus the third operand
  obtain ⟨h₂, hrun₂, hch₂, hval₂⟩ := xorrr_runs ops form s h₁ firstFpReg
  obtain ⟨h₃, hrun₃, hch₃, hval₃⟩ := arithrr_runs ops form s h₂ .sub firstFpReg secondFpReg
  obtain ⟨r₃, h₄, hrun₄, hch₄, hval₄, ho₃⟩ :=
    getFpReg_runs ops flags m s h₃ instr.regSrc3.toNat secondFpReg
  obtain ⟨r₄, h₅, hrun₅, hch₅, hval₅, hcase⟩ := saveIf_runs ops form s h₄ (d = r₃) secondFpReg r₃
  obtain ⟨h₆, hrun₆, hch₆, hval₆⟩ := moveIf_runs ops form s h₅
    (fun hnot => (not_not.1 hnot).symm : ¬ d ≠ firstFpReg → firstFpReg = d)
  obtain ⟨h₇, hrun₇, hch₇, hval₇⟩ := arithrr_runs ops form s h₆ .sub d r₄
  have hw₂ := hw₁.step hch₂ (.inl rfl)
  have hw₃ := hw₂.step hch₃ (.inl rfl)
  have hw₅ := (hw₃.step hch₄ (.inr (.inl rfl))).step hch₅ (.inr (.inl rfl))
  have hw₆ := (hw₅.widen d).step hch₆ (.inr (.inr rfl))
  obtain ⟨h', hrun, hdelivers⟩ :=
    setFpReg_runs ops flags s h₇ ht (.inl rfl) (hw₆.step hch₇ (.inr (.inr rfl)))
  refine ⟨_, h', withRound_runs ops flags s h hdyn (.bind hrun₁ (.bind hrun₂ (.bind hrun₃
    (.bind hrun₄ (.bind hrun₅ (.bind hrun₆ (.bind hrun₇ hrun))))))), hdelivers, ?_⟩
  have hne : r₄ ≠ d := by
    rcases hcase with ⟨-, rfl⟩ | ⟨hne, rfl⟩
    · exact ht.operand.ne_second.symm
    · exact fun heq => hne heq.symm
  have hfirst : firstFpReg ≠ secondFpReg := by decide
  rw [hval₇, hval₆, hch₅.xmm _ hfirst, hch₄.xmm _ hfirst, hval₃, hval₂, hch₂.xmm _ hfirst.symm,
    hproduct, hch₆.xmm _ hne, hval₅, hval₄, hw₃.value_of_first, hw₆.calm.mxcsr, hw₂.calm.mxcsr]
  rfl

/-- A commutative operation may take its operands in either order. -/
theorem doFpArithmCommutative_runs (op : SseOp) (r₁ r₂ d : XmmReg)
    (hcomm : ∀ mx a b, ops.arith op form mx a b = ops.arith op form mx b a) :
    ∃ h', Runs (SseInstr.exec ops) (doFpArithmCommutative r₁ r₂ d op form) s h () s h' ∧
      Changes d h h' ∧
      form.get (h'.xmm d) =
        ops.arith op form h.mxcsr (form.get (h.xmm r₁)) (form.get (h.xmm r₂)) := by
  unfold doFpArithmCommutative
  split
  · rename_i heq
    subst heq
    exact arithrr_runs ops form s h op d r₂
  · split
    · rename_i heq
      subst heq
      obtain ⟨h', hrun, hch, hval⟩ := arithrr_runs ops form s h op d r₁
      exact ⟨h', hrun, hch, hval.trans (hcomm _ _ _)⟩
    · rename_i hne
      obtain ⟨h₁, hrun₁, hch₁, hval₁⟩ := movrr_runs ops .d s h d r₁
      obtain ⟨h₂, hrun₂, hch₂, hval₂⟩ := arithrr_runs ops form s h₁ op d r₂
      have hmoved : h₁.xmm d = h.xmm r₁ := hval₁
      refine ⟨h₂, .bind hrun₁ hrun₂, ⟨hch₁.calm.trans hch₂.calm,
        fun reg => (hch₂.fp reg).trans (hch₁.fp reg),
        fun q hq => (hch₂.xmm q hq).trans (hch₁.xmm q hq)⟩, ?_⟩
      rw [hval₂, hmoved, hch₁.xmm r₂ fun heq => hne heq.symm, hch₁.calm.mxcsr]

/-- Sums, products, and their order of operands. -/
theorem fpCommutative_yields (op : SseOp)
    (hcomm : ∀ mx a b, ops.arith op form mx a b = ops.arith op form mx b a)
    (hdyn : instr.roundingMode = dyn) :
    Yields ops form m s h instr (translateFpCommutative form flags m instr op)
      (ops.arith op form h.mxcsr (scalar form m h instr.regSrc1)
        (scalar form m h instr.regSrc2)) := by
  obtain ⟨r₁, h₁, hrun₁, hch₁, hval₁, ho₁⟩ :=
    getFpReg_runs ops flags m s h instr.regSrc1 firstFpReg
  obtain ⟨r₂, h₂, hrun₂, hch₂, hval₂, -⟩ :=
    getFpReg_runs ops flags m s h₁ instr.regSrc2 secondFpReg
  obtain ⟨h₃, hrun₃, hch₃, hxmm₃⟩ :=
    getFpRegNoLoad_runs ops flags m s h₂ instr.regDest firstFpReg firstFpReg
  have ht := target_getD m instr.regDest firstFpReg
  generalize (m.fpMap instr.regDest).getD firstFpReg = d at hrun₃ ht
  obtain ⟨h₄, hrun₄, hch₄, hval₄⟩ := doFpArithmCommutative_runs ops form s h₃ op r₁ r₂ d hcomm
  have hw₁ := (Working.refl firstFpReg h).step hch₁ (.inl rfl)
  have hw₃ := (hw₁.step hch₂ (.inr (.inl rfl))).step hch₃ (.inl rfl)
  obtain ⟨h', hrun, hdelivers⟩ :=
    setFpReg_runs ops flags s h₄ ht (.inl rfl) ((hw₃.widen d).step hch₄ (.inr (.inr rfl)))
  refine ⟨_, h', withRound_runs ops flags s h hdyn (.bind hrun₁ (.bind hrun₂ (.bind hrun₃
    (.bind hrun₄ hrun)))), hdelivers, ?_⟩
  rw [hval₄, hxmm₃, hch₂.xmm r₁ ho₁.ne_second, hval₁, hval₂, hw₁.value_of_first, hw₃.calm.mxcsr]
  rfl

/-- The second operand is saved, if the destination would overwrite it. -/
theorem doFpArithmOrdered_runs (op : SseOp) {h₀ : SseState} {d : XmmReg}
    (hw : Working firstFpReg h₀ h) (ht : FpTarget m instr.regDest firstFpReg d) :
    ∃ h', Runs (SseInstr.exec ops) (doFpArithmOrdered form flags m instr op d) s h () s h' ∧
      Working d h₀ h' ∧
      form.get (h'.xmm d) = ops.arith op form h₀.mxcsr (scalar form m h₀ instr.regSrc1)
        (scalar form m h₀ instr.regSrc2) := by
  obtain ⟨r₂, h₁, hrun₁, hch₁, hval₁, -⟩ := getFpReg_runs ops flags m s h instr.regSrc2 secondFpReg
  obtain ⟨r₃, h₂, hrun₂, hch₂, hval₂, hcase⟩ := saveIf_runs ops form s h₁ (r₂ = d) secondFpReg r₂
  obtain ⟨r₁, h₃, hrun₃, hch₃, hval₃, -⟩ := getFpReg_runs ops flags m s h₂ instr.regSrc1 d
  obtain ⟨h₄, hrun₄, hch₄, hval₄⟩ := moveIf_runs ops form s h₃ (not_not.1 : ¬ r₁ ≠ d → r₁ = d)
  obtain ⟨h₅, hrun₅, hch₅, hval₅⟩ := arithrr_runs ops form s h₄ op d r₃
  have hw₂ := (hw.step hch₁ (.inr (.inl rfl))).step hch₂ (.inr (.inl rfl))
  have hw₄ := ((hw₂.widen d).step hch₃ (.inr (.inr rfl))).step hch₄ (.inr (.inr rfl))
  refine ⟨h₅, .bind hrun₁ (.bind hrun₂ (.bind hrun₃ (.bind hrun₄ hrun₅))),
    hw₄.step hch₅ (.inr (.inr rfl)), ?_⟩
  -- `rs2` was saved if it was in the destination
  have hne : r₃ ≠ d := by
    rcases hcase with ⟨-, rfl⟩ | ⟨hne, rfl⟩
    · exact ht.operand.ne_second.symm
    · exact hne
  rw [hval₅, hval₄, hval₃, hw₂.value_of_first, hch₄.xmm _ hne, hch₃.xmm _ hne, hval₂, hval₁,
    hw.value_of_first, hw₄.calm.mxcsr]
  rfl

/-- `FDIV` divides in the order of the operands. -/
theorem fdiv_yields (hdyn : instr.roundingMode = dyn) :
    Yields ops form m s h instr (translateFDIV form flags m instr)
      (ops.arith .div form h.mxcsr (scalar form m h instr.regSrc1)
        (scalar form m h instr.regSrc2)) := by
  obtain ⟨h₁, hrun₁, hch₁, -⟩ :=
    getFpRegNoLoad_runs ops flags m s h instr.regDest firstFpReg firstFpReg
  have ht := target_getD m instr.regDest firstFpReg
  generalize (m.fpMap instr.regDest).getD firstFpReg = d at hrun₁ ht
  have hw₁ := (Working.refl firstFpReg h).step hch₁ (.inl rfl)
  obtain ⟨h₂, hrun₂, hw₂, hval₂⟩ :=
    doFpArithmOrdered_runs ops form flags m s h₁ instr .div hw₁ ht
  obtain ⟨h', hrun, hdelivers⟩ := setFpReg_runs ops flags s h₂ ht (.inl rfl) hw₂
  exact ⟨_, h', withRound_runs ops flags s h hdyn (.bind hrun₁ (.bind hrun₂ hrun)), hdelivers,
    hval₂⟩

/-- A difference that is computed. -/
theorem fsub_yields (hdyn : instr.roundingMode = dyn)
    (hdiffer : ¬ (instr.regDest = instr.regSrc2 ∧ instr.regDest = instr.regSrc1)) :
    Yields ops form m s h instr (translateFSUB form flags m instr)
      (ops.arith .sub form h.mxcsr (scalar form m h instr.regSrc1)
        (scalar form m h instr.regSrc2)) := by
  obtain ⟨h₁, hrun₁, hch₁, -⟩ :=
    getFpRegNoLoad_runs ops flags m s h instr.regDest firstFpReg firstFpReg
  have ht := target_getD m instr.regDest firstFpReg
  generalize (m.fpMap instr.regDest).getD firstFpReg = d at hrun₁ ht
  have hw₁ := (Working.refl firstFpReg h).step hch₁ (.inl rfl)
  obtain ⟨h₂, hrun₂, hw₂, hval₂⟩ :=
    doFpArithmOrdered_runs ops form flags m s h₁ instr .sub hw₁ ht
  obtain ⟨h', hrun, hdelivers⟩ := setFpReg_runs ops flags s h₂ ht (.inl rfl) hw₂
  exact ⟨_, h', withRound_runs ops flags s h hdyn
    (.bind hrun₁ (.bind (.ite_neg hdiffer hrun₂) hrun)), hdelivers, hval₂⟩

/-- A difference of a register and itself, to the same register. -/
theorem fsub_same_yields (hdyn : instr.roundingMode = dyn)
    (hsame : instr.regDest = instr.regSrc2 ∧ instr.regDest = instr.regSrc1) :
    Yields ops form m s h instr (translateFSUB form flags m instr)
      (BitVec.ofNat form.width 0) := by
  obtain ⟨h₁, hrun₁, hch₁, -⟩ :=
    getFpRegNoLoad_runs ops flags m s h instr.regDest firstFpReg firstFpReg
  have ht := target_getD m instr.regDest firstFpReg
  generalize (m.fpMap instr.regDest).getD firstFpReg = d at hrun₁ ht
  have hw₁ := (Working.refl firstFpReg h).step hch₁ (.inl rfl)
  obtain ⟨h₂, hrun₂, hch₂, hval₂⟩ := xorrr_runs ops form s h₁ d
  obtain ⟨h', hrun, hdelivers⟩ :=
    setFpReg_runs ops flags s h₂ ht (.inl rfl) ((hw₁.widen d).step hch₂ (.inr (.inr rfl)))
  exact ⟨_, h', withRound_runs ops flags s h hdyn
    (.bind hrun₁ (.bind (.ite_pos hsame hrun₂) hrun)), hdelivers, hval₂⟩

/-- `FSQRT` takes the root of its one operand. -/
theorem fsqrt_yields (hdyn : instr.roundingMode = dyn) :
    Yields ops form m s h instr (translateFSQRT form flags m instr)
      (ops.sqrt form h.mxcsr (scalar form m h instr.regSrc1)) := by
  obtain ⟨r₁, h₁, hrun₁, hch₁, hval₁, -⟩ := getFpReg_runs ops flags m s h instr.regSrc1 firstFpReg
  obtain ⟨h₂, hrun₂, hch₂, hxmm₂⟩ :=
    getFpRegNoLoad_runs ops flags m s h₁ instr.regDest firstFpReg firstFpReg
  have ht := target_getD m instr.regDest firstFpReg
  generalize (m.fpMap instr.regDest).getD firstFpReg = d at hrun₂ ht
  obtain ⟨h₃, hrun₃, hch₃, hval₃⟩ := sqrtrr_runs ops form s h₂ d r₁
  have hw₂ := ((Working.refl firstFpReg h).step hch₁ (.inl rfl)).step hch₂ (.inl rfl)
  obtain ⟨h', hrun, hdelivers⟩ :=
    setFpReg_runs ops flags s h₃ ht (.inl rfl) ((hw₂.widen d).step hch₃ (.inr (.inr rfl)))
  refine ⟨_, h', withRound_runs ops flags s h hdyn (.bind hrun₁ (.bind hrun₂ (.bind hrun₃ hrun))),
    hdelivers, ?_⟩
  rw [hval₃, hxmm₂, hval₁, hw₂.calm.mxcsr]
  rfl

end Instructions

/-! ## All instructions -/

/-- What an instruction computes. -/
inductive FpKind where
  | madd | msub | nmsub | nmadd | add | sub | mul | div | sqrt
  deriving DecidableEq, Repr

/-- The arithmetic instructions, with the width of their scalars. -/
def fpInstruction : RiscMnem → Option (FpKind × FpForm)
  | .fmadds => some (.madd, .s)
  | .fmsubs => some (.msub, .s)
  | .fnmsubs => some (.nmsub, .s)
  | .fnmadds => some (.nmadd, .s)
  | .fadds => some (.add, .s)
  | .fsubs => some (.sub, .s)
  | .fmuls => some (.mul, .s)
  | .fdivs => some (.div, .s)
  | .fsqrts => some (.sqrt, .s)
  | .fmaddd => some (.madd, .d)
  | .fmsubd => some (.msub, .d)
  | .fnmsubd => some (.nmsub, .d)
  | .fnmaddd => some (.nmadd, .d)
  | .faddd => some (.add, .d)
  | .fsubd => some (.sub, .d)
  | .fmuld => some (.mul, .d)
  | .fdivd => some (.div, .d)
  | .fsqrtd => some (.sqrt, .d)
  | _ => none

/-- The result, as a composition of single operations. -/
def FpKind.result (kind : FpKind) (ops : SseArithmetic) (form : FpForm) (mxcsr : BitVec 32)
    (a b c : BitVec form.width) : BitVec form.width :=
  match kind with
  | .madd => ops.arith .add form mxcsr (ops.arith .mul form mxcsr a b) c
  | .msub => ops.arith .sub form mxcsr (ops.arith .mul form mxcsr a b) c
  | .nmsub => ops.arith .sub form mxcsr c (ops.arith .mul form mxcsr a b)
  | .nmadd =>
      ops.arith .sub form mxcsr (ops.arith .sub form mxcsr (BitVec.ofNat form.width 0)
        (ops.arith .mul form mxcsr a b)) c
  | .add => ops.arith .add form mxcsr a b
  | .sub => ops.arith .sub form mxcsr a b
  | .mul => ops.arith .mul form mxcsr a b
  | .div => ops.arith .div form mxcsr a b
  | .sqrt => ops.sqrt form mxcsr a

/-- The emitter for each kind of instruction. -/
def emitterOf : FpKind → FpForm → Flags → FpMapping → RiscInstr → FpGen Unit
  | .madd => translateFMADD
  | .msub => translateFMSUB
  | .nmsub => translateFNMSUB
  | .nmadd => translateFNMADD
  | .add => fun form flags m instr => translateFpCommutative form flags m instr .add
  | .sub => translateFSUB
  | .mul => fun form flags m instr => translateFpCommutative form flags m instr .mul
  | .div => translateFDIV
  | .sqrt => translateFSQRT

/-- The table of emitters is that of the instructions. -/
theorem fpEmitter_eq (mnem : RiscMnem) :
    fpEmitter mnem = (fpInstruction mnem).map fun p => emitterOf p.1 p.2 := by
  cases mnem <;> rfl

section Routing

variable (ops : SseArithmetic) (kind : FpKind) (form : FpForm) (flags : Flags) (m : FpMapping)
  (s : FpGenState) (h : SseState) (instr : RiscInstr)

/-- The result of an instruction from the values of its operands. -/
def fpResult : BitVec form.width :=
  kind.result ops form h.mxcsr (scalar form m h instr.regSrc1) (scalar form m h instr.regSrc2)
    (scalar form m h instr.regSrc3.toNat)

/-- A register is subtracted from itself, and is the destination too. -/
def Cancels : Prop :=
  kind = .sub ∧ instr.regDest = instr.regSrc2 ∧ instr.regDest = instr.regSrc1

/-- Every instruction that does not subtract a register from itself into itself yields its result.
-/
theorem emitter_yields (hcomm : ops.Commutes) (hdyn : instr.roundingMode = dyn)
    (hcancels : ¬ Cancels kind instr) :
    Yields ops form m s h instr (emitterOf kind form flags m instr)
      (fpResult ops kind form m h instr) := by
  cases kind with
  | madd => exact fmadd_yields ops form flags m s h instr hcomm hdyn
  | msub => exact fmsub_yields ops form flags m s h instr hdyn
  | nmsub => exact fnmsub_yields ops form flags m s h instr hdyn
  | nmadd => exact fnmadd_yields ops form flags m s h instr hdyn
  | add => exact fpCommutative_yields ops form flags m s h instr .add (hcomm.add form) hdyn
  | sub => exact fsub_yields ops form flags m s h instr hdyn fun hsame => hcancels ⟨rfl, hsame⟩
  | mul => exact fpCommutative_yields ops form flags m s h instr .mul (hcomm.mul form) hdyn
  | div => exact fdiv_yields ops form flags m s h instr hdyn
  | sqrt => exact fsqrt_yields ops form flags m s h instr hdyn

/-- The code has one result. -/
theorem Yields.unique {g : FpGen Unit} {x y : BitVec form.width}
    (hx : Yields ops form m s h instr g x) (hy : Yields ops form m s h instr g y) : x = y := by
  obtain ⟨v, h₁, hrun, hdelivers, rfl⟩ := hx
  obtain ⟨w, h₂, hrun', hdelivers', rfl⟩ := hy
  obtain ⟨-, -, rfl⟩ := hrun.unique hrun'
  rw [← hdelivers.value, ← hdelivers'.value]

end Routing

/-- Every instruction delivers its result and leaves the other registers alone, unless it
subtracts a register from itself into the same register and this difference is not zero. -/
theorem fpRouting_iff (ops : SseArithmetic) (hcomm : ops.Commutes) (kind : FpKind) (form : FpForm)
    (flags : Flags) (m : FpMapping) (s : FpGenState) (h : SseState) (instr : RiscInstr)
    (hinstr : fpInstruction instr.mnem = some (kind, form)) (hdyn : instr.roundingMode = dyn) :
    ∃ emitter, fpEmitter instr.mnem = some emitter ∧
      (Yields ops form m s h instr (emitter flags m instr) (fpResult ops kind form m h instr) ↔
        ¬ Cancels kind instr ∨ ops.arith .sub form h.mxcsr (scalar form m h instr.regDest)
          (scalar form m h instr.regDest) = BitVec.ofNat form.width 0) := by
  refine ⟨emitterOf kind form, ?_, ?_⟩
  · rw [fpEmitter_eq, hinstr]
    rfl
  · by_cases hcancels : Cancels kind instr
    · obtain ⟨rfl, hsrc2, hsrc1⟩ := hcancels
      have hzero := fsub_same_yields ops form flags m s h instr hdyn ⟨hsrc2, hsrc1⟩
      have hresult : fpResult ops .sub form m h instr = ops.arith .sub form h.mxcsr
          (scalar form m h instr.regDest) (scalar form m h instr.regDest) := by
        unfold fpResult FpKind.result
        rw [← hsrc1, ← hsrc2]
      rw [hresult]
      constructor
      · intro hyields
        exact .inr (Yields.unique ops form m s h instr hyields hzero)
      · rintro (hnot | hsub)
        · exact absurd ⟨rfl, hsrc2, hsrc1⟩ hnot
        · rw [hsub]
          exact hzero
    · have hyields := emitter_yields ops kind form flags m s h instr hcomm hdyn hcancels
      exact ⟨fun _ => .inl hcancels, fun _ => hyields⟩

/-- Arithmetic that does what the processor does on zeros, and where an infinity is subtracted
from itself. -/
def sampleArithmetic : SseArithmetic where
  arith := fun op form _ a b =>
    if op = .sub ∧ a.toNat = 0x7ff0000000000000 ∧ b.toNat = 0x7ff0000000000000 then
      BitVec.ofNat form.width 0xfff8000000000000
    else a + b
  sqrt := fun _ _ a => a

theorem sampleArithmetic_sum {op : SseOp} (hop : op ≠ .sub) (form : FpForm) (mxcsr : BitVec 32)
    (a b : BitVec form.width) : sampleArithmetic.arith op form mxcsr a b = a + b :=
  if_neg fun h => hop h.1

theorem sampleArithmetic_commutes : sampleArithmetic.Commutes := by
  constructor
  · intro form mxcsr a b
    have hop : SseOp.add ≠ .sub := by decide
    rw [sampleArithmetic_sum hop, sampleArithmetic_sum hop, BitVec.add_comm]
  · intro form mxcsr a b
    have hop : SseOp.mul ≠ .sub := by decide
    rw [sampleArithmetic_sum hop, sampleArithmetic_sum hop, BitVec.add_comm]

/-- All registers hold one value. -/
def filledState (v : BitVec 64) : SseState :=
  ⟨⟨fun _ => 0#64, none, fun _ => 0#64, fun _ => 0#8, []⟩, fun _ => v, fun _ => v, 0x1f80#32⟩

/-- The integer registers hold one value, and the floating-point registers those of a file. -/
def valuedState (v : BitVec 64) (f : Nat → BitVec 64) : SseState :=
  ⟨⟨fun _ => v, none, fun _ => v, fun _ => 0#8, []⟩,
    fun r => f (((mappedFpRegs.find? (·.2 = r)).map Prod.fst).getD 0),
    fun
      | .fp x => f x
      | _ => 0#64,
    0x1f80#32⟩

/-- A register of that machine has the value of the file, mapped or not. -/
theorem fpValue_valuedState (v : BitVec 64) (f : Nat → BitVec 64) (x : Nat) :
    fpValue .static (valuedState v f) x = f x := by
  have hfind : ∀ p ∈ mappedFpRegs, mappedFpRegs.find? (·.2 = p.2) = some p := by decide
  unfold fpValue
  cases hmap : FpMapping.static.fpMap x with
  | none => rfl
  | some q =>
      -- the register that is mapped to an SSE register is found by it
      have hq := hfind (x, q) (mem_mappedFpRegs hmap)
      simp only [valuedState]
      rw [hq]
      rfl

/-- `f1` holds one, `f2` a half, and the others minus one and a half. -/
def doubles (x : Nat) : BitVec 64 :=
  if x = 1 then 0x3ff0000000000000#64
  else if x = 2 then 0x3fe0000000000000#64
  else 0xbff8000000000000#64

/-- The generator at the start of a block. -/
def FpGenState.start : FpGenState := ⟨⟨⟨fun _ => invalidReg, fun _ => 0, 0⟩, false⟩, none⟩

/-- An instruction with dynamic rounding. -/
def fpInstr (mnem : RiscMnem) (rd rs1 rs2 : Nat) : RiscInstr :=
  ⟨0#64, mnem, .float, rs1, rs2, rd, 0x700000000#64⟩

/-- One and a half are added into a register that is neither of the two. -/
theorem fpRouting_iff_faddd :
    scalar .d .static (valuedState 0#64 doubles) 1 = 0x3ff0000000000000#64 ∧
      scalar .d .static (valuedState 0#64 doubles) 2 = 0x3fe0000000000000#64 ∧
      ∃ emitter, fpEmitter (fpInstr .faddd 0 1 2).mnem = some emitter ∧
        Yields truncatingArithmetic .d .static .start (valuedState 0#64 doubles)
          (fpInstr .faddd 0 1 2) (emitter {} .static (fpInstr .faddd 0 1 2))
          (fpResult truncatingArithmetic .add .d .static (valuedState 0#64 doubles)
            (fpInstr .faddd 0 1 2)) := by
  obtain ⟨emitter, hemitter, hiff⟩ := fpRouting_iff truncatingArithmetic
    truncatingArithmetic_commutes .add .d {} .static .start (valuedState 0#64 doubles)
    (fpInstr .faddd 0 1 2) rfl rfl
  exact ⟨rfl, rfl, emitter, hemitter, hiff.2 (.inl fun h => nomatch h.1)⟩

/-- Infinity minus infinity is zero if all three registers are the same. -/
theorem fpRouting_cancels :
    ¬ ∀ (ops : SseArithmetic) (kind : FpKind) (form : FpForm) (flags : Flags) (m : FpMapping)
      (s : FpGenState) (h : SseState) (instr : RiscInstr), ops.Commutes →
      fpInstruction instr.mnem = some (kind, form) → instr.roundingMode = dyn →
      ∃ emitter, fpEmitter instr.mnem = some emitter ∧
        Yields ops form m s h instr (emitter flags m instr) (fpResult ops kind form m h instr) := by
  intro hall
  obtain ⟨emitter, hemitter, hyields⟩ := hall sampleArithmetic .sub .d {} .static .start
    (filledState 0x7ff0000000000000#64) (fpInstr .fsubd 0 0 0) sampleArithmetic_commutes rfl rfl
  obtain rfl := Option.some.inj hemitter
  have hzero := fsub_same_yields sampleArithmetic .d {} .static .start
    (filledState 0x7ff0000000000000#64) (fpInstr .fsubd 0 0 0) rfl ⟨rfl, rfl⟩
  have hsame := Yields.unique sampleArithmetic .d .static .start _ _ hyields hzero
  exact absurd hsame (by decide)

end RiaJit.Translate
