import RiaJit.Gen.FpToInt

/-!
# What conversions to integers depend on

A conversion to an integer should use nothing of the host but the registers of the guest, and
keep its source. The signed ones do. The unsigned ones look for the sign in `FIRST_FP_REG`, where
the source is only if it is not mapped, and the one for 64 bits subtracts the bias in the register
of a mapped source.
-/

set_option autoImplicit false

namespace RiaJit.Translate

open EmitLogic ForwardJumps X86 Ieee RiaJit.Runtime

/-! ## The instructions -/

section Instructions

variable {u : FpUnit} {m : FpMapping} {instr : RiscInstr} {g : GuestState}
  {f : Nat → BitVec 64} {r : RegisterInfo} {h : FpState} {e : Bool} {a : Option Abort}
  (form : FpForm) (flags : Flags)

/-- The mode that a conversion to an integer rounds in. -/
def toIntMode (flags : Flags) (instr : RiscInstr) (mxcsr : BitVec 32) : Mode :=
  if instr.roundingMode = rtz then .zero
  else insideRound (instr.roundingMode ≠ dyn ∧ instr.roundingMode ≠ rtz) flags instr.roundingMode
    mxcsr

/-- What is known of the guest's floating-point registers after a conversion to an integer. -/
structure KeepsSource (u : FpUnit) (m : FpMapping) (instr : RiscInstr) (t : IntType)
    (form : FpForm) (y : BitVec form.width) (f f' : Nat → BitVec 64) : Prop where
  others : ∀ n, n ≠ instr.regSrc1 → f' n = f n
  kept : t ≠ .lu ∨ m.fpMap instr.regSrc1 = none ∨ ¬ Biased form y (form.get (f instr.regSrc1)) →
    f' = f
  biased : t = .lu → m.fpMap instr.regSrc1 ≠ none → Biased form y (form.get (f instr.regSrc1)) →
    ∃ mxcsr, form.get (f' instr.regSrc1) =
      u.ops.arith .sub form mxcsr (form.get (f instr.regSrc1)) (biasPattern form)

theorem toIntBody_keeps (hsub : u.ops.Subtracts) (ha : Agrees m x0 g f r h)
    (hrd : instr.regDest < 32) (truncate : Bool) (t : IntType) :
    let y := form.get (firstSeen m f instr.regSrc1 h)
    ∃ f', DeliversInt u m instr g f' r h e a (toIntBody form flags m instr t truncate)
        (toIntValue form (conversionMode truncate h) y (form.get (f instr.regSrc1)) t) ∧
      KeepsSource u m instr t form y f f' := by
  dsimp only
  by_cases ht : t = .lu
  · subst ht
    obtain ⟨v, f', hdelivers, hvalue, hothers, hkept, hbiased⟩ :=
      unsignedLongBody_delivers (u := u) (e := e) (a := a) form flags truncate ha hrd
    rw [hvalue hsub] at hdelivers
    exact ⟨f', hdelivers, hothers, fun hor => hkept (hor.resolve_left fun hne => hne rfl),
      fun _ => hbiased⟩
  · exact ⟨f, toIntBody_delivers form flags truncate ha hrd ht, fun _ _ => rfl, fun _ => rfl,
      fun hlu => absurd hlu ht⟩

/-- The conversions to integers, under whatever rounding mode. -/
theorem translateToInt_delivers (hsub : u.ops.Subtracts) (ha : Agrees m x0 g f r h)
    (hrd : instr.regDest < 32) (t : IntType) :
    let y := form.get (firstSeen m f instr.regSrc1 h)
    ∃ f' r' h' a', FpRuns u (translateToInt t form flags m instr) ⟨⟨r, e⟩, a⟩ h ()
        ⟨⟨r', e⟩, a'⟩ h' ∧
      Agrees m x0 (g.write instr.regDest (toIntValue form (toIntMode flags instr h.sse.mxcsr) y
        (form.get (f instr.regSrc1)) t)) f' r' h' ∧ KeepsSource u m instr t form y f f' := by
  dsimp only
  -- inside the bracket, in the mode that it sets
  have hbody : RunsInside u m g f h e (insideRound (instr.roundingMode ≠ dyn ∧
      instr.roundingMode ≠ rtz) flags instr.roundingMode h.sse.mxcsr)
      (toIntBody form flags m instr t (decide (instr.roundingMode = rtz))) fun g' f' =>
        g' = g.write instr.regDest (toIntValue form (toIntMode flags instr h.sse.mxcsr)
          (form.get (firstSeen m f instr.regSrc1 h)) (form.get (f instr.regSrc1)) t) ∧
        KeepsSource u m instr t form (form.get (firstSeen m f instr.regSrc1 h)) f f' := by
    intro r₁ h₁ a₁ ha₁ hmode₁ hxmm₁
    obtain ⟨f', ⟨r₂, h₂, hrun₂, ha₂, he₂⟩, hkeeps⟩ := toIntBody_keeps (u := u) (e := e) (a := a₁)
      form flags hsub ha₁ hrd (decide (instr.roundingMode = rtz)) t
    have hseen : firstSeen m f instr.regSrc1 h₁ = firstSeen m f instr.regSrc1 h := by
      unfold firstSeen
      rw [hxmm₁]
    have hmode : conversionMode (decide (instr.roundingMode = rtz)) h₁ =
        toIntMode flags instr h.sse.mxcsr := by
      unfold conversionMode toIntMode
      rw [hmode₁]
      by_cases hrtz : instr.roundingMode = rtz
      · rw [if_pos hrtz, if_pos (decide_eq_true hrtz)]
      · rw [if_neg hrtz, if_neg (by simpa using hrtz)]
    rw [hseen] at ha₂ hkeeps
    rw [hmode] at ha₂
    exact ⟨_, f', r₂, h₂, hrun₂, ha₂, he₂, rfl, hkeeps⟩
  obtain ⟨g', f', r', h', a', hrun, ha', rfl, hkeeps⟩ :=
    bracketIf_agrees (a := a) (instr.roundingMode ≠ dyn ∧ instr.roundingMode ≠ rtz) ha hbody
  exact ⟨f', r', h', a', hrun, ha', hkeeps⟩

end Instructions

/-! ## Scratch registers -/

/-- Two machines differ at most in the registers that hold no value of the guest. -/
structure SameButScratch (r : RegisterInfo) (h₁ h₂ : FpState) : Prop where
  reg : ∀ R, (∀ i, R = getRegForIndex i → r.replacementContent i ≠ invalidReg) →
    h₂.reg R = h₁.reg R
  xmm : ∀ q, q ≠ firstFpReg → q ≠ secondFpReg → h₂.xmm q = h₁.xmm q
  cell : h₂.sse.cell = h₁.sse.cell
  hostCell : h₂.sse.host.cell = h₁.sse.host.cell
  mem : h₂.sse.host.mem = h₁.sse.host.mem
  stack : h₂.sse.host.stack = h₁.sse.host.stack
  mxcsr : h₂.sse.mxcsr = h₁.sse.mxcsr
  flags : h₂.flags = h₁.flags
  hostFlags : h₂.sse.host.flags = h₁.sse.host.flags

/-- Machines that represent one guest and differ in scratch registers only represent one guest
after the code, and the floating-point registers of that guest are unchanged. -/
def DependsOnSource (u : FpUnit) (m : FpMapping) (r : RegisterInfo) (e : Bool) (a : Option Abort)
    (code : FpCode Unit) : Prop :=
  ∀ g f h₁ h₂, Agrees m x0 g f r h₁ → Agrees m x0 g f r h₂ → SameButScratch r h₁ h₂ →
    ∃ g' s' h₁' h₂', FpRuns u code ⟨⟨r, e⟩, a⟩ h₁ () s' h₁' ∧
      FpRuns u code ⟨⟨r, e⟩, a⟩ h₂ () s' h₂' ∧
      Agrees m x0 g' f s'.gen.rInfo h₁' ∧ Agrees m x0 g' f s'.gen.rInfo h₂'

section Dependence

variable {u : FpUnit} {m : FpMapping} {instr : RiscInstr} {r : RegisterInfo} {e : Bool}
  {a : Option Abort} (form : FpForm) (flags : Flags)

/-- What the generator returns does not depend on the machine. -/
theorem runs_same {code : FpCode Unit} {s s₁ s₂ : FpGenState} {h₁ h₁' h₂ h₂' : FpState}
    (hrun₁ : FpRuns u code s h₁ () s₁ h₁') (hrun₂ : FpRuns u code s h₂ () s₂ h₂') : s₁ = s₂ := by
  obtain ⟨code₁, hgen₁, -⟩ := hrun₁
  obtain ⟨code₂, hgen₂, -⟩ := hrun₂
  exact congrArg (fun p => p.2.2) (hgen₁.symm.trans hgen₂)

/-- Where `FIRST_FP_REG` is looked at for nothing, or holds the source. -/
def LooksAtSource (m : FpMapping) (instr : RiscInstr) (t : IntType) : Prop :=
  t = .w ∨ t = .l ∨ m.fpMap instr.regSrc1 = none ∨ t = .wu ∧ instr.regDest = x0

theorem dependsOnSource_of (hsub : u.ops.Subtracts) (hrd : instr.regDest < 32) (t : IntType)
    (ht : LooksAtSource m instr t) :
    DependsOnSource u m r e a (translateToInt t form flags m instr) := by
  intro g f h₁ h₂ ha₁ ha₂ hsame
  obtain ⟨f₁, r₁, h₁', a₁, hrun₁, hagrees₁, hkeeps₁⟩ :=
    translateToInt_delivers (u := u) (e := e) (a := a) form flags hsub ha₁ hrd t
  obtain ⟨f₂, r₂, h₂', a₂, hrun₂, hagrees₂, hkeeps₂⟩ :=
    translateToInt_delivers (u := u) (e := e) (a := a) form flags hsub ha₂ hrd t
  have hstate := runs_same hrun₁ hrun₂
  rw [← hstate] at hrun₂
  have hkept : t ≠ .lu ∨ m.fpMap instr.regSrc1 = none := by
    rcases ht with rfl | rfl | hnone | ⟨rfl, -⟩
    · exact .inl (by decide)
    · exact .inl (by decide)
    · exact .inr hnone
    · exact .inl (by decide)
  have hf₁ : f₁ = f := hkeeps₁.kept (hkept.imp_right .inl)
  have hf₂ : f₂ = f := hkeeps₂.kept (hkept.imp_right .inl)
  have hr : r₂ = r₁ := congrArg (fun s => s.gen.rInfo) hstate.symm
  subst hf₁ hf₂ hr
  -- the same is written to `rd`, unless that has no effect
  have hwritten : g.write instr.regDest (toIntValue form (toIntMode flags instr h₂.sse.mxcsr)
      (form.get (firstSeen m f₂ instr.regSrc1 h₂)) (form.get (f₂ instr.regSrc1)) t) =
      g.write instr.regDest (toIntValue form (toIntMode flags instr h₁.sse.mxcsr)
        (form.get (firstSeen m f₂ instr.regSrc1 h₁)) (form.get (f₂ instr.regSrc1)) t) := by
    rw [hsame.mxcsr]
    rcases ht with rfl | rfl | hnone | ⟨-, hx0⟩
    · rfl
    · rfl
    · unfold firstSeen
      rw [if_pos hnone, if_pos hnone]
    · unfold GuestState.write
      rw [if_pos hx0, if_pos hx0]
  rw [hwritten] at hagrees₂
  exact ⟨_, _, h₁', h₂', hrun₁, hrun₂, hagrees₁, hagrees₂⟩

/-- What is delivered to two machines, if the code depends on its source only. -/
theorem DependsOnSource.delivered {g : GuestState} {f : Nat → BitVec 64} {h₁ h₂ : FpState}
    (hsub : u.ops.Subtracts) (hrd : instr.regDest < 32) (t : IntType)
    (hdep : DependsOnSource u m r e a (translateToInt t form flags m instr))
    (ha₁ : Agrees m x0 g f r h₁) (ha₂ : Agrees m x0 g f r h₂) (hsame : SameButScratch r h₁ h₂) :
    (instr.regDest ≠ x0 →
      toIntValue form (toIntMode flags instr h₁.sse.mxcsr)
          (form.get (firstSeen m f instr.regSrc1 h₁)) (form.get (f instr.regSrc1)) t =
        toIntValue form (toIntMode flags instr h₂.sse.mxcsr)
          (form.get (firstSeen m f instr.regSrc1 h₂)) (form.get (f instr.regSrc1)) t) ∧
      KeepsSource u m instr t form (form.get (firstSeen m f instr.regSrc1 h₁)) f f := by
  obtain ⟨g', s', h₁', h₂', hrun₁, hrun₂, hagrees₁, hagrees₂⟩ := hdep g f h₁ h₂ ha₁ ha₂ hsame
  obtain ⟨f₁, r₁, k₁, a₁, hrun₁', hagrees₁', hkeeps₁⟩ :=
    translateToInt_delivers (u := u) (e := e) (a := a) form flags hsub ha₁ hrd t
  obtain ⟨f₂, r₂, k₂, a₂, hrun₂', hagrees₂', -⟩ :=
    translateToInt_delivers (u := u) (e := e) (a := a) form flags hsub ha₂ hrd t
  obtain ⟨-, rfl, rfl⟩ := hrun₁.unique hrun₁'
  obtain ⟨-, hs, rfl⟩ := hrun₂.unique hrun₂'
  obtain rfl : r₁ = r₂ := congrArg (fun s => s.gen.rInfo) hs
  have hf₁ : f₁ = f := funext fun n => (hagrees₁'.fp n).symm.trans (hagrees₁.fp n)
  refine ⟨fun hx0 => ?_, by rwa [hf₁] at hkeeps₁⟩
  have hvalue₁ := (hagrees₁'.rep.regs _ hx0 hx0 hrd).symm.trans (hagrees₁.rep.regs _ hx0 hx0 hrd)
  have hvalue₂ := (hagrees₂'.rep.regs _ hx0 hx0 hrd).symm.trans (hagrees₂.rep.regs _ hx0 hx0 hrd)
  rw [GuestState.write_reg_self g hx0] at hvalue₁ hvalue₂
  exact hvalue₁.trans hvalue₂.symm

end Dependence

/-! ## A stale replacement -/

section Stale

variable {u : FpUnit} {m : FpMapping} {instr : RiscInstr} {r : RegisterInfo} {e : Bool}
  {a : Option Abort} (form : FpForm) (flags : Flags)

/-- A machine all of whose floating-point registers hold one value, but for `FIRST_FP_REG`. -/
def staleFp (v y : BitVec 64) : FpState :=
  ⟨{ filledState v with xmm := Function.update (fun _ => v) firstFpReg y }, .unknown⟩

theorem stale_first (v y : BitVec 64) : (staleFp v y).xmm firstFpReg = y := by
  show Function.update (fun _ => v) firstFpReg y firstFpReg = y
  exact Function.update_self _ _ _

theorem stale_other (v y : BitVec 64) {q : XmmReg} (hq : q ≠ firstFpReg) :
    (staleFp v y).xmm q = v := by
  show Function.update (fun _ => v) firstFpReg y q = v
  exact Function.update_of_ne hq _ _

theorem stale_agrees (hwf : r.WellFormed) (v y : BitVec 64) :
    Agrees m x0 ⟨regValue r (filledState v).host, fun _ => 0#8⟩ (fun _ => v) r (staleFp v y) := by
  refine ⟨⟨hwf, fun _ _ _ _ => rfl, rfl⟩, fun x => ?_⟩
  unfold fpValue
  cases hmap : m.fpMap x with
  | none => rfl
  | some q =>
      -- the replacement is not the register of any number of the guest
      refine stale_other v y fun hq => ?_
      rw [hq] at hmap
      exact m.first x hmap

theorem stale_same (v y z : BitVec 64) : SameButScratch r (staleFp v y) (staleFp v z) where
  reg _ _ := rfl
  xmm _ hq _ := (stale_other v z hq).trans (stale_other v y hq).symm
  cell := rfl
  hostCell := rfl
  mem := rfl
  stack := rfl
  mxcsr := rfl
  flags := rfl
  hostFlags := rfl

/-- The number `1`. -/
def onePattern : (form : FpForm) → BitVec form.width
  | .s => 0x3f800000#32
  | .d => 0x3ff0000000000000#64

/-- The number `-1`. -/
def minusOnePattern : (form : FpForm) → BitVec form.width
  | .s => 0xbf800000#32
  | .d => 0xbff0000000000000#64

theorem value_onePattern :
    form.format.isFinite (onePattern form) = true ∧ form.format.value (onePattern form) = 1 := by
  obtain ⟨hbias, hfrac⟩ := bias_large form
  have hholds := holds_mul form.format (m := 1) (s := 0) Nat.one_le_two_pow
    (by cases form <;> decide)
  obtain ⟨hfinite, -, hvalue⟩ := value_ofInt (by omega) hholds
  have hpattern : onePattern form = form.format.ofInt ((1 * 2 ^ 0 : Nat) : ℤ) := by
    cases form <;> rfl
  rw [hpattern]
  refine ⟨hfinite, ?_⟩
  rw [hvalue]
  push_cast
  ring

theorem get_setWidth (x : BitVec form.width) : form.get (x.setWidth 64) = x := by
  cases form with
  | s =>
      show (x.setWidth 64).setWidth 32 = x
      exact BitVec.setWidth_setWidth_of_le x (by decide) |>.trans (BitVec.setWidth_eq x)
  | d => exact (get_double _).trans (BitVec.setWidth_eq x)

/-- With a negative number in the replacement, `1` becomes zero. -/
theorem unsignedWordValue_stale (mode : Mode) :
    unsignedWordValue form mode (zeroPattern form) (onePattern form) ≠
      unsignedWordValue form mode (minusOnePattern form) (onePattern form) := by
  obtain ⟨hfinite, hvalue⟩ := value_onePattern form
  have hrounded : roundedValue form mode (onePattern form) = some 1 := by
    unfold roundedValue
    rw [if_pos hfinite, hvalue]
    exact congrArg some (round_intCast mode 1)
  have hplain : form.format.lt (zeroPattern form) (zeroPattern form) = false := by
    cases form <;> decide
  have hnegative : form.format.lt (minusOnePattern form) (zeroPattern form) = true := by
    cases form <;> decide
  unfold unsignedWordValue
  rw [hplain, hnegative, if_neg Bool.false_ne_true, if_pos rfl]
  show indefiniteOr 64 (roundedValue form mode (onePattern form)) ≠ 0#64
  rw [hrounded]
  decide

/-- Two machines tell the conversion to 32 bits without a sign from one of its source. -/
theorem not_dependsOnSource_wu (hsub : u.ops.Subtracts) (hrd : instr.regDest < 32)
    (hx0 : instr.regDest ≠ x0) (hmapped : m.fpMap instr.regSrc1 ≠ none) (hwf : r.WellFormed) :
    ¬ DependsOnSource u m r e a (translateToInt .wu form flags m instr) := by
  intro hdep
  let v : BitVec 64 := (onePattern form).setWidth 64
  let y : BitVec 64 := (zeroPattern form).setWidth 64
  let z : BitVec 64 := (minusOnePattern form).setWidth 64
  obtain ⟨hsame, -⟩ := hdep.delivered form flags hsub hrd .wu (stale_agrees hwf v y)
    (stale_agrees hwf v z) (stale_same v y z)
  have hvalues := hsame hx0
  unfold firstSeen at hvalues
  rw [if_neg hmapped, if_neg hmapped] at hvalues
  rw [stale_first, stale_first, get_setWidth, get_setWidth, get_setWidth] at hvalues
  exact unsignedWordValue_stale form _ hvalues

/-- The conversion to 64 bits without a sign subtracts the bias from the bias in the register of
its source. -/
theorem not_dependsOnSource_lu (hsub : u.ops.Subtracts) (hrd : instr.regDest < 32)
    (hmapped : m.fpMap instr.regSrc1 ≠ none) (hwf : r.WellFormed) :
    ¬ DependsOnSource u m r e a (translateToInt .lu form flags m instr) := by
  intro hdep
  let v : BitVec 64 := (biasPattern form).setWidth 64
  let y : BitVec 64 := (zeroPattern form).setWidth 64
  obtain ⟨-, hkeeps⟩ := hdep.delivered form flags hsub hrd .lu (stale_agrees hwf v y)
    (stale_agrees hwf v y) (stale_same v y y)
  have hbiased : Biased form (zeroPattern form) (biasPattern form) := by
    cases form <;> exact ⟨by decide, by decide⟩
  have hkept := hkeeps.biased rfl hmapped
  unfold firstSeen at hkept
  rw [if_neg hmapped, stale_first, get_setWidth, get_setWidth] at hkept
  obtain ⟨mxcsr, hdifference⟩ := hkept hbiased
  -- so the difference, which is zero, would be the bias
  obtain ⟨hfinite, -⟩ := value_biasPattern form
  have hrounds := hsub.finite form mxcsr _ _ hfinite hfinite
  have hzero : form.format.isFinite (zeroPattern form) = true ∧
      form.format.value (zeroPattern form) = 0 := by
    have hmag : magnitude (zeroPattern form) = 0 := by cases form <;> rfl
    have hmsb : (zeroPattern form).msb = false := by cases form <;> rfl
    refine ⟨by cases form <;> decide, ?_⟩
    unfold FloatFormat.value
    rw [hmsb, hmag, absValue_zero]
    rfl
  rw [← hdifference, sub_self, ← hzero.2] at hrounds
  have hkey := hrounds.exact hzero.1
  cases form <;> exact absurd hkey (by decide)

/-- Exactly the conversions that look at their source do not depend on anything else. -/
theorem dependsOnSource_iff (hsub : u.ops.Subtracts) (hrd : instr.regDest < 32) (t : IntType)
    (hwf : r.WellFormed) :
    DependsOnSource u m r e a (translateToInt t form flags m instr) ↔ LooksAtSource m instr t := by
  constructor
  · intro hdep
    by_contra hlooks
    unfold LooksAtSource at hlooks
    cases t with
    | w => exact hlooks (.inl rfl)
    | l => exact hlooks (.inr (.inl rfl))
    | wu =>
        exact not_dependsOnSource_wu form flags hsub hrd
          (fun hx0 => hlooks (.inr (.inr (.inr ⟨rfl, hx0⟩))))
          (fun hnone => hlooks (.inr (.inr (.inl hnone)))) hwf hdep
    | lu =>
        exact not_dependsOnSource_lu form flags hsub hrd
          (fun hnone => hlooks (.inr (.inr (.inl hnone)))) hwf hdep
  · exact dependsOnSource_of form flags hsub hrd t

end Stale

/-- A conversion to an integer depends on its source only, and keeps it, exactly if it has a sign,
or its source is not mapped, or it has 32 bits and its result is dropped. -/
theorem toInt_dependsOnSource_iff (u : FpUnit) (flags : Flags) (m : FpMapping) (instr : RiscInstr)
    (t : IntType) (form : FpForm) (r : RegisterInfo) (e : Bool) (a : Option Abort)
    (hinstr : fpConversion instr.mnem = some (.toInt t form)) (hsub : u.ops.Subtracts)
    (hrd : instr.regDest < 32) (hwf : r.WellFormed) :
    ∃ emitter, fpConvertEmitter instr.mnem = some emitter ∧
      (DependsOnSource u m r e a (emitter flags m instr) ↔ LooksAtSource m instr t) :=
  ⟨translateToInt t form, by rw [fpConvertEmitter_eq, hinstr]; rfl,
    dependsOnSource_iff form flags hsub hrd t hwf⟩

theorem toInt_dependsOnSource_iff_fcvtwus :
    ∃ emitter, fpConvertEmitter .fcvtwus = some emitter ∧
      (DependsOnSource truncatingUnit .static FpGenState.start.gen.rInfo false none
          (emitter {} .static (fpInstr .fcvtwus 10 15 0)) ↔
        LooksAtSource .static (fpInstr .fcvtwus 10 15 0) .wu) :=
  toInt_dependsOnSource_iff truncatingUnit {} .static (fpInstr .fcvtwus 10 15 0) .wu .s
    FpGenState.start.gen.rInfo false none rfl truncatingArithmetic_subtracts (by decide)
    start_wellFormed

/-- `FCVT.WU.S` of `f15`, which is mapped, depends on what is left in `FIRST_FP_REG`. -/
theorem toInt_looks_elsewhere :
    ¬ ∀ (u : FpUnit) (flags : Flags) (m : FpMapping) (instr : RiscInstr) (t : IntType)
      (form : FpForm) (r : RegisterInfo) (e : Bool) (a : Option Abort),
      fpConversion instr.mnem = some (.toInt t form) → u.ops.Subtracts → instr.regDest < 32 →
      r.WellFormed → ∃ emitter, fpConvertEmitter instr.mnem = some emitter ∧
        DependsOnSource u m r e a (emitter flags m instr) := by
  intro hall
  obtain ⟨emitter, hemitter, hdep⟩ := hall truncatingUnit {} .static (fpInstr .fcvtwus 10 15 0)
    .wu .s FpGenState.start.gen.rInfo false none rfl truncatingArithmetic_subtracts (by decide)
    start_wellFormed
  obtain rfl := Option.some.inj hemitter
  exact not_dependsOnSource_wu .s {} truncatingArithmetic_subtracts (by decide) (by decide)
    (by decide) start_wellFormed hdep

end RiaJit.Translate
