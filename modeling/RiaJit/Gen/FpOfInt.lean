import RiaJit.Gen.FpConvert
import RiaJit.X86.RoundedArithmetic

/-!
# Conversions of integers

What `FCVT.S.W` and its variants leave in `rd` is the integer in `rs1`, rounded in the mode of the
instruction. Unsigned integers of 32 bits are converted with 64 bits; those of 64 bits are
converted as they are below `2^63`, and above at half of their size, with the bit that is lost
put into the lowest one, and doubled.
-/

set_option autoImplicit false

namespace RiaJit.Translate

open EmitLogic ForwardJumps X86 Ieee

/-! ## Copies of the source -/

section Copies

variable {u : FpUnit} {m : FpMapping} {g : GuestState} {f : Nat → BitVec 64} {r : RegisterInfo}
  {h : FpState} {e : Bool} {a : Option Abort}

/-- A move into an empty replacement. -/
theorem copy_agrees (ha : Agrees m x0 g f r h) {i : Fin 3}
    (hempty : r.replacementContent i = invalidReg) (R : FeReg) (s : FpGenState) :
    ∃ h', FpRuns u (Gen.emit (.sse (.gp (.movrr .s64 (getRegForIndex i) R)))) s h () s h' ∧
      Agrees m x0 g f r h' ∧ Elsewhere h h' ∧ h'.reg (getRegForIndex i) = h.reg R ∧
      (∀ Q, Q ≠ getRegForIndex i → h'.reg Q = h.reg Q) ∧ ∀ p, h'.xmm p = h.xmm p := by
  have hrun : runFrom (FpInstr.step u) 0 [.sse (.gp (.movrr .s64 (getRegForIndex i) R))] h =
    some _ := rfl
  have htouches := runFrom_touches (R := fun Q => Q = getRegForIndex i) (X := fun _ => False)
    (by simp [confined_cons, confined_nil, onRegisters, writesReg, writesXmm]) hrun
  obtain ⟨ha', -⟩ := ha.overwrite hempty (fun Q hQ => htouches.reg Q hQ) htouches.hostCell
    htouches.mem htouches.stack (funext fun p => htouches.xmm p id)
    fun x => congrFun htouches.cell _
  refine ⟨_, runs_emitCode s hrun, ha', htouches.elsewhere (getRegForIndex_ne_sp i).symm, ?_,
    fun Q hQ => htouches.reg Q hQ, fun p => htouches.xmm p id⟩
  simp [sized]

/-- The source is in one of the two replacements: the other one is emptied and filled first. -/
theorem copyHeld_agrees (ha : Agrees m x0 g f r h) {i j : Fin 3} (hij : i ≠ j) :
    ∃ r' h', FpRuns u (do
        invalidateReplacement j
        Gen.emit (.sse (.gp (.movrr .s64 (getRegForIndex j) (getRegForIndex i))))
        invalidateReplacement i
        Gen.emit (.sse (.gp (.movrr .s64 (getRegForIndex i) (getRegForIndex j)))))
        ⟨⟨r, e⟩, a⟩ h () ⟨⟨r', e⟩, a⟩ h' ∧
      Agrees m x0 g f r' h' ∧ Elsewhere h h' ∧ r'.replacementContent i = invalidReg ∧
      r'.replacementContent j = invalidReg ∧
      h'.reg (getRegForIndex i) = h.reg (getRegForIndex i) ∧
      h'.reg (getRegForIndex j) = h.reg (getRegForIndex i) := by
  have hne : getRegForIndex j ≠ getRegForIndex i := regForIndex_ne hij.symm
  obtain ⟨h₁, hrun₁, ha₁, he₁, -, hreg₁⟩ :=
    invalidateReplacement_agrees (u := u) (e := e) (a := a) ha j
  obtain ⟨h₂, hrun₂, ha₂, he₂, hvalue₂, hothers₂, -⟩ :=
    copy_agrees (u := u) ha₁ (i := j) (by simp) (getRegForIndex i) ⟨⟨_, e⟩, a⟩
  obtain ⟨h₃, hrun₃, ha₃, he₃, -, hreg₃⟩ :=
    invalidateReplacement_agrees (u := u) (e := e) (a := a) ha₂ i
  obtain ⟨h₄, hrun₄, ha₄, he₄, hvalue₄, hothers₄, -⟩ :=
    copy_agrees (u := u) ha₃ (i := i) (by simp) (getRegForIndex j) ⟨⟨_, e⟩, a⟩
  have hsource : h₃.reg (getRegForIndex j) = h.reg (getRegForIndex i) := by
    unfold FpState.reg at hvalue₂ ⊢
    rw [hreg₃, hvalue₂, hreg₁]
  refine ⟨_, h₄, .bind hrun₁ (.bind hrun₂ (.bind hrun₃ hrun₄)), ha₄,
    he₁.trans (he₂.trans (he₃.trans he₄)), by simp, by simp [hij.symm], ?_, ?_⟩
  · rw [hvalue₄, hsource]
  · rw [hothers₄ _ hne, hsource]

/-- Wherever the source is, it is in `FIRST_REG` and `SECOND_REG` after the copies, and neither of
them holds a register of the guest. -/
theorem copyTwice_agrees (ha : Agrees m x0 g f r h) (R : FeReg) :
    ∃ r' h', FpRuns u (copyTwice R) ⟨⟨r, e⟩, a⟩ h () ⟨⟨r', e⟩, a⟩ h' ∧ Agrees m x0 g f r' h' ∧
      Elsewhere h h' ∧ r'.replacementContent 0 = invalidReg ∧
      r'.replacementContent 1 = invalidReg ∧
      h'.reg .ax = h.reg R ∧ h'.reg .dx = h.reg R ∧ h'.reg R = h.reg R := by
  unfold copyTwice
  -- the source may lie in one of the two already, which then is not emptied before the copy
  by_cases hax : R = .ax
  · subst hax
    simp only [if_true]
    obtain ⟨r', h', hrun, ha', he', h0, h1, hfirst, hsecond⟩ :=
      copyHeld_agrees (u := u) (e := e) (a := a) ha (i := 0) (j := 1) (by decide)
    exact ⟨r', h', hrun, ha', he', h0, h1, hfirst, hsecond, hfirst⟩
  · rw [if_neg hax]
    by_cases hdx : R = .dx
    · subst hdx
      simp only [if_true]
      obtain ⟨r', h', hrun, ha', he', h1, h0, hsecond, hfirst⟩ :=
        copyHeld_agrees (u := u) (e := e) (a := a) ha (i := 1) (j := 0) (by decide)
      exact ⟨r', h', hrun, ha', he', h0, h1, hfirst, hsecond, hsecond⟩
    · rw [if_neg hdx]
      obtain ⟨h₁, hrun₁, ha₁, he₁, -, hreg₁⟩ :=
        invalidateReplacement_agrees (u := u) (e := e) (a := a) ha 0
      obtain ⟨h₂, hrun₂, ha₂, he₂, -, hreg₂⟩ :=
        invalidateReplacement_agrees (u := u) (e := e) (a := a) ha₁ 1
      obtain ⟨h₃, hrun₃, ha₃, he₃, hvalue₃, hothers₃, -⟩ :=
        copy_agrees (u := u) ha₂ (i := 0) (by simp) R ⟨⟨_, e⟩, a⟩
      obtain ⟨h₄, hrun₄, ha₄, he₄, hvalue₄, hothers₄, -⟩ :=
        copy_agrees (u := u) ha₃ (i := 1) (by simp) R ⟨⟨_, e⟩, a⟩
      have hsame : h₂.reg R = h.reg R := by
        unfold FpState.reg
        rw [hreg₂, hreg₁]
      have hkept : h₃.reg R = h.reg R := (hothers₃ R hax).trans hsame
      refine ⟨_, h₄, .bind hrun₁ (.bind hrun₂ (.bind hrun₃ hrun₄)), ha₄,
        he₁.trans (he₂.trans (he₃.trans he₄)), by simp, by simp, ?_, ?_, ?_⟩
      · exact (hothers₄ .ax (by decide)).trans (hvalue₃.trans hsame)
      · exact hvalue₄.trans hkept
      · exact (hothers₄ R hdx).trans hkept

end Copies

/-! ## The code behind the requests for registers -/

section Code

variable {u : FpUnit} {h : FpState} {d : XmmReg} {R : FeReg} {mode : Mode} (form : FpForm)

/-- A signed conversion into a cleared register. -/
def ofSignedCode (size : OpSize) (d : XmmReg) (R : FeReg) : List FpInstr :=
  [.sse (.xorrr form d d), .cvtsi2 form size d R]

theorem ofSignedCode_runs (size : OpSize) (d : XmmReg) (R : FeReg) :
    ∃ h', runFrom (FpInstr.step u) 0 (ofSignedCode form size d R) h = some h' ∧
      form.get (h'.xmm d) =
        convertFromInt form (roundingControl h.sse.mxcsr) (signedSource size (h.reg R)) := by
  refine ⟨_, rfl, ?_⟩
  simp [FpInstr.raised]

theorem ofSignedCode_confined (size : OpSize) (d : XmmReg) (R : FeReg) :
    Confined (fun _ => False) (fun X => X = firstFpReg ∨ X = d) (ofSignedCode form size d R) := by
  simp [ofSignedCode, confined_cons, confined_nil, onRegisters, writesReg, writesXmm]

/-- An unsigned word is converted as a signed integer of 64 bits. -/
def ofUnsignedWordCode (d : XmmReg) (scratch R : FeReg) : List FpInstr :=
  [.sse (.gp (.movrr .s32 scratch R)), .sse (.xorrr form d d), .cvtsi2 form .s64 d scratch]

theorem ofUnsignedWordCode_runs (d : XmmReg) (scratch R : FeReg) :
    ∃ h', runFrom (FpInstr.step u) 0 (ofUnsignedWordCode form d scratch R) h = some h' ∧
      form.get (h'.xmm d) =
        convertFromInt form (roundingControl h.sse.mxcsr) (IntType.wu.source (h.reg R)) := by
  have hsource : IntType.wu.source (h.reg R) =
      signedSource .s64 (((h.reg R).setWidth 32).setWidth 64) := by
    have hlt : (((h.reg R).setWidth 32).setWidth 64).toNat < 2 ^ 63 := by
      rw [BitVec.toNat_setWidth, BitVec.toNat_setWidth]
      omega
    show ((BitVec.setWidth 32 (h.reg R)).toNat : ℤ) = BitVec.toInt _
    rw [BitVec.toInt_eq_toNat_of_lt (by omega)]
    exact congrArg Nat.cast (BitVec.toNat_setWidth_of_le (by decide)).symm
  rw [hsource]
  refine ⟨_, rfl, ?_⟩
  simp [FpInstr.raised, sized]

theorem ofUnsignedWordCode_confined (d : XmmReg) (scratch R : FeReg) :
    Confined (fun Q => Q = scratch) (fun X => X = firstFpReg ∨ X = d)
      (ofUnsignedWordCode form d scratch R) := by
  simp [ofUnsignedWordCode, confined_cons, confined_nil, onRegisters, writesReg, writesXmm]

/-- What is done where `rs1` is `2^63` or more. -/
def halvedCode (d : XmmReg) : List FpInstr :=
  .and32ri .ax 1#32 :: clearFirst form ++
    [.sse (.gp (.shiftri .shr .s64 .dx 1#64)), .sse (.gp (.alurr .or .s64 .dx .ax)),
      .cvtsi2 form .s64 d .dx, .sse (.arithrr .add form d d)]

theorem ofUnsignedLong_code (d : XmmReg) (R : FeReg) :
    (ofUnsignedLong form d R).code =
      [.sse (.xorrr form d d), .sse (.gp (.test64rr R R))] ++
        .jump (some .s) (some 2) :: ([.cvtsi2 form .s64 d R,
          .jump none (some (halvedCode form d).length)] ++ halvedCode form d) := by
  cases form <;> rfl

/-- What the integer part of that code makes of a source. -/
theorem sticky_word (v : BitVec 64) :
    signedSource .s64 (shifted .shr .s64 v 1#64 ||| (v.setWidth 32).setWidth 64 &&& 1#64) =
      sticky v.toNat := by
  have hbit : ((v.setWidth 32).setWidth 64 &&& 1#64).toNat = v.toNat % 2 := by
    rw [BitVec.toNat_and, BitVec.toNat_setWidth, BitVec.toNat_setWidth]
    show _ &&& 1 = _
    rw [Nat.and_one_is_mod]
    omega
  have hhalf : (shifted .shr .s64 v 1#64).toNat = v.toNat / 2 := by
    show (v >>> 1).toNat = _
    rw [BitVec.toNat_ushiftRight, Nat.shiftRight_one]
  have hnat : (shifted .shr .s64 v 1#64 ||| (v.setWidth 32).setWidth 64 &&& 1#64).toNat =
      sticky v.toNat := by
    rw [BitVec.toNat_or, hbit, hhalf]
    rfl
  have hlt : sticky v.toNat < 2 ^ 63 :=
    Nat.or_lt_two_pow (by omega) (lt_trans (Nat.mod_lt _ (by decide)) (by decide))
  show BitVec.toInt _ = _
  rw [BitVec.toInt_eq_toNat_of_lt (by omega), hnat]

theorem halvedCode_runs {v : BitVec 64} (hax : h.reg .ax = v) (hdx : h.reg .dx = v)
    (hneg : v.msb = true) :
    ∃ h', runFrom (FpInstr.step u) 0 (halvedCode form d) h = some h' ∧
      (u.ops.Doubles → form.get (h'.xmm d) =
        convertFromInt form (roundingControl h.sse.mxcsr) (v.toNat : ℤ)) := by
  have hax' : h.sse.host.reg .ax = v := hax
  have hdx' : h.sse.host.reg .dx = v := hdx
  have hlo : 2 ^ 63 ≤ v.toNat := by
    rw [BitVec.msb_eq_decide] at hneg
    exact of_decide_eq_true hneg
  cases form with
  | s =>
      refine ⟨_, rfl, fun hdoubles => ?_⟩
      simp [FpInstr.raised, sized, AluOp.eval]
      rw [hax', hdx', sticky_word]
      exact convertFromInt_sticky hdoubles .s _ _ hlo v.isLt
  | d =>
      refine ⟨_, rfl, fun hdoubles => ?_⟩
      simp [FpInstr.raised, sized, AluOp.eval]
      rw [hax', hdx', sticky_word]
      exact convertFromInt_sticky hdoubles .d _ _ hlo v.isLt

/-- Both ways through the code of an unsigned conversion. -/
theorem ofUnsignedLong_runs {v : BitVec 64} (hax : h.reg .ax = v) (hdx : h.reg .dx = v)
    (hR : h.reg R = v) :
    ∃ h', runFrom (FpInstr.step u) 0 (ofUnsignedLong form d R).code h = some h' ∧
      (u.ops.Doubles → form.get (h'.xmm d) =
        convertFromInt form (roundingControl h.sse.mxcsr) (v.toNat : ℤ)) := by
  obtain ⟨h₁, hrun₁, hreg₁, hsign₁, hmxcsr₁⟩ : ∃ h₁, runFrom (FpInstr.step u) 0
      [.sse (.xorrr form d d), .sse (.gp (.test64rr R R))] h = some h₁ ∧
      (∀ Q, h₁.reg Q = h.reg Q) ∧ h₁.flags.sf = some v.msb ∧ h₁.sse.mxcsr = h.sse.mxcsr := by
    refine ⟨_, rfl, fun Q => rfl, ?_, ?_⟩
    · have hR' : h.sse.host.reg R = v := hR
      simp [SseInstr.keepsFlags, FeInstr.keepsFlags, FpFlags.ofHost, hR']
    · simp [FpInstr.raised]
  rw [ofUnsignedLong_code, runFrom_append _ hrun₁, ← hmxcsr₁]
  -- from `2 ^ 63` on the source is halved, below it is converted as a signed integer
  cases hneg : v.msb with
  | true =>
      have htaken : FpCond.s.holds h₁.flags = some true := hsign₁.trans (congrArg some hneg)
      rw [runFrom_taken htaken]
      exact halvedCode_runs form ((hreg₁ _).trans hax) ((hreg₁ _).trans hdx) hneg
  | false =>
      have huntaken : FpCond.s.holds h₁.flags = some false := hsign₁.trans (congrArg some hneg)
      have hsigned : signedSource .s64 (h₁.reg R) = (v.toNat : ℤ) := by
        rw [hreg₁, hR]
        exact BitVec.toInt_eq_toNat_of_msb hneg
      obtain ⟨h₂, hrun₂, hvalue₂⟩ : ∃ h₂, runFrom (FpInstr.step u) 0 [.cvtsi2 form .s64 d R] h₁ =
          some h₂ ∧ form.get (h₂.xmm d) =
            convertFromInt form (roundingControl h₁.sse.mxcsr) (v.toNat : ℤ) := by
        refine ⟨_, rfl, ?_⟩
        rw [← hsigned]
        simp
      refine ⟨h₂, ?_, fun _ => hvalue₂⟩
      rw [runFrom_untaken huntaken]
      exact (runFrom_append _ hrun₂).trans ((runFrom_jump _ _).trans (runFrom_length _ _ h₂))

theorem ofUnsignedLong_confined (d : XmmReg) (R : FeReg) :
    Confined (fun Q => Q = .ax ∨ Q = .dx) (fun X => X = firstFpReg ∨ X = d)
      (ofUnsignedLong form d R).code := by
  rw [ofUnsignedLong_code]
  cases form <;> simp [halvedCode, clearFirst, confined_cons, confined_nil, onRegisters, writesReg,
    writesXmm]

end Code

/-! ## The code between the helpers -/

section Bodies

variable {u : FpUnit} {m : FpMapping} {instr : RiscInstr} {g : GuestState}
  {f : Nat → BitVec 64} {r : RegisterInfo} {h : FpState} {e : Bool} {a : Option Abort}
  (form : FpForm) (flags : Flags)

/-- The code leaves a number with this scalar in `rd` and changes nothing else. -/
def DeliversFp (u : FpUnit) (m : FpMapping) (instr : RiscInstr) (g : GuestState)
    (f : Nat → BitVec 64) (r : RegisterInfo) (h : FpState) (e : Bool) (a : Option Abort)
    (body : FpCode Unit) (form : FpForm) (x : BitVec form.width) : Prop :=
  ∃ v r' h', FpRuns u body ⟨⟨r, e⟩, a⟩ h () ⟨⟨r', e⟩, a⟩ h' ∧
    Agrees m x0 g (Function.update f instr.regDest v) r' h' ∧ Elsewhere h h' ∧ form.get v = x

theorem ofSignedBody_delivers (ha : Agrees m x0 g f r h) (hrs1 : instr.regSrc1 < 32)
    (size : OpSize) :
    DeliversFp u m instr g f r h e a (ofSignedBody form flags m instr size) form
      (convertFromInt form (roundingControl h.sse.mxcsr)
        (signedSource size (g.read instr.regSrc1))) := by
  obtain ⟨R, r₁, h₁, hrun₁, ha₁, he₁, -, hvalue₁, -⟩ :=
    getRs1_agrees (u := u) (e := e) (a := a) flags ha hrs1
  obtain ⟨h₂, hrun₂, ha₂, he₂, -, hreg₂⟩ :=
    getFpRegNoLoad_agrees (u := u) flags ha₁ instr.regDest firstFpReg ⟨⟨r₁, e⟩, a⟩
  obtain ⟨h₃, hcode, hvalue⟩ := ofSignedCode_runs (u := u) (h := h₂) form size
    ((m.fpMap instr.regDest).getD firstFpReg) R
  obtain ⟨h₄, hrun₄, ha₄, he₄⟩ := ha₂.deliverCode flags (target_getD m _ _) hcode
    (ofSignedCode_confined form size _ R) (fun _ hQ => hQ.elim) ⟨⟨r₁, e⟩, a⟩
  refine ⟨_, r₁, h₄, .bind hrun₁ (.bind hrun₂ hrun₄), ha₄, he₁.trans (he₂.trans he₄), ?_⟩
  have hsource : h₂.reg R = g.read instr.regSrc1 := (congrFun hreg₂ R).trans hvalue₁
  rw [hvalue, hsource, he₂.mode, he₁.mode]

theorem ofUnsignedWordBody_delivers (ha : Agrees m x0 g f r h) (hrs1 : instr.regSrc1 < 32) :
    DeliversFp u m instr g f r h e a (ofUnsignedWordBody form flags m instr) form
      (convertFromInt form (roundingControl h.sse.mxcsr)
        (IntType.wu.source (g.read instr.regSrc1))) := by
  obtain ⟨R, r₁, h₁, hrun₁, ha₁, he₁, -, hvalue₁, -⟩ :=
    getRs1_agrees (u := u) (e := e) (a := a) flags ha hrs1
  obtain ⟨r₂, h₂, hrun₂, ha₂, he₂, -, hempty₂, -, -, hreg₂⟩ :=
    invalidateOldest_agrees (u := u) (e := e) (a := a) ha₁
  obtain ⟨h₃, hrun₃, ha₃, he₃, -, hreg₃⟩ :=
    getFpRegNoLoad_agrees (u := u) flags ha₂ instr.regDest firstFpReg ⟨⟨r₂, e⟩, a⟩
  obtain ⟨h₄, hcode, hvalue⟩ := ofUnsignedWordCode_runs (u := u) (h := h₃) form
    ((m.fpMap instr.regDest).getD firstFpReg) (getRegForIndex r₁.oldest) R
  obtain ⟨h₅, hrun₅, ha₅, he₅⟩ := ha₃.deliverCode flags (target_getD m _ _) hcode
    (ofUnsignedWordCode_confined form _ _ R) (fun Q hQ => ⟨_, hQ, hempty₂⟩) ⟨⟨r₂, e⟩, a⟩
  refine ⟨_, r₂, h₅, .bind hrun₁ (.bind hrun₂ (.bind hrun₃ hrun₅)), ha₅,
    he₁.trans (he₂.trans (he₃.trans he₅)), ?_⟩
  have hsource : h₃.reg R = g.read instr.regSrc1 :=
    (congrFun hreg₃ R).trans ((congrFun hreg₂ R).trans hvalue₁)
  rw [hvalue, hsource, he₃.mode, he₂.mode, he₁.mode]

theorem ofUnsignedLongBody_delivers (ha : Agrees m x0 g f r h) (hrs1 : instr.regSrc1 < 32) :
    ∃ x, DeliversFp u m instr g f r h e a (ofUnsignedLongBody form flags m instr) form x ∧
      (u.ops.Doubles → x = convertFromInt form (roundingControl h.sse.mxcsr)
        (IntType.lu.source (g.read instr.regSrc1))) := by
  obtain ⟨R, r₁, h₁, hrun₁, ha₁, he₁, -, hvalue₁, -⟩ :=
    getRs1_agrees (u := u) (e := e) (a := a) flags ha hrs1
  obtain ⟨r₂, h₂, hrun₂, ha₂, he₂, hax₂, hdx₂, hfirst₂, hsecond₂, hsource₂⟩ :=
    copyTwice_agrees (u := u) (e := e) (a := a) ha₁ R
  obtain ⟨h₃, hrun₃, ha₃, he₃, -, hreg₃⟩ :=
    getFpRegNoLoad_agrees (u := u) flags ha₂ instr.regDest firstFpReg ⟨⟨r₂, e⟩, a⟩
  have hkept : ∀ Q, h₂.reg Q = h₁.reg R → h₃.reg Q = g.read instr.regSrc1 := fun Q hQ =>
    (congrFun hreg₃ Q).trans (hQ.trans hvalue₁)
  have htested : h₃.reg (testedSource R form) = g.read instr.regSrc1 := by
    cases form with
    | s => exact hkept R hsource₂
    | d => exact hkept .ax hfirst₂
  obtain ⟨h₄, hcode, hvalue⟩ := ofUnsignedLong_runs
    (u := u) (d := (m.fpMap instr.regDest).getD firstFpReg) form (hkept .ax hfirst₂)
    (hkept .dx hsecond₂) htested
  obtain ⟨h₅, hrun₅, ha₅, he₅⟩ := ha₃.deliverCode flags (target_getD m _ _) hcode
    (ofUnsignedLong_confined form _ _)
    (fun Q hQ => hQ.elim (fun hax => ⟨0, hax, hax₂⟩) fun hdx => ⟨1, hdx, hdx₂⟩) ⟨⟨r₂, e⟩, a⟩
  refine ⟨_, ⟨_, r₂, h₅, .bind hrun₁ (.bind hrun₂ (.bind hrun₃ hrun₅)), ha₅,
    he₁.trans (he₂.trans (he₃.trans he₅)), rfl⟩, fun hdoubles => ?_⟩
  rw [hvalue hdoubles, he₃.mode, he₂.mode, he₁.mode]
  rfl

/-- What the code between the helpers leaves in `rd`, in whichever mode. -/
theorem ofIntBody_delivers (hdoubles : u.ops.Doubles) (ha : Agrees m x0 g f r h)
    (hrs1 : instr.regSrc1 < 32) (t : IntType) :
    DeliversFp u m instr g f r h e a (ofIntBody form flags m instr t) form
      (convertFromInt form (roundingControl h.sse.mxcsr) (t.source (g.read instr.regSrc1))) := by
  cases t with
  | w => exact ofSignedBody_delivers form flags ha hrs1 .s32
  | wu => exact ofUnsignedWordBody_delivers form flags ha hrs1
  | l => exact ofSignedBody_delivers form flags ha hrs1 .s64
  | lu =>
      obtain ⟨x, hdelivers, hvalue⟩ :=
        ofUnsignedLongBody_delivers (u := u) (e := e) (a := a) form flags ha hrs1
      rw [hvalue hdoubles] at hdelivers
      exact hdelivers

end Bodies

/-! ## The instructions -/

section Instructions

variable {u : FpUnit} {m : FpMapping} {instr : RiscInstr} {g : GuestState}
  {f : Nat → BitVec 64} {r : RegisterInfo} {h : FpState} {e : Bool} {a : Option Abort}
  {mode : Mode} (flags : Flags)

/-- The conversions of integers under a rounding mode of their own. -/
theorem translateOfInt_delivers (form : FpForm) (hdoubles : u.ops.Doubles)
    (ha : Agrees m x0 g f r h) (hrs1 : instr.regSrc1 < 32) (t : IntType)
    (hmode : staticMode instr.roundingMode = some mode) :
    ∃ f' r' h', FpRuns u (translateOfInt t form flags m instr) ⟨⟨r, e⟩, a⟩ h () ⟨⟨r', e⟩, a⟩ h' ∧
      Agrees m x0 g f' r' h' ∧ Scoped h h' ∧ ∃ v, f' = Function.update f instr.regDest v ∧
        form.get v = convertFromInt form mode (t.source (g.read instr.regSrc1)) := by
  obtain ⟨w, hok, hw⟩ := toSseRoundMode_static flags hmode
  have hbody : RunsInside u m g f h e (wordMode w) (ofIntBody form flags m instr t) fun g' f' =>
      g' = g ∧ ∃ v, f' = Function.update f instr.regDest v ∧
        form.get v = convertFromInt form mode (t.source (g.read instr.regSrc1)) := by
    intro r₁ h₁ a₁ ha₁ hmode₁ _
    obtain ⟨v, r₂, h₂, hrun₂, ha₂, he₂, hv⟩ :=
      ofIntBody_delivers (u := u) (e := e) (a := a₁) form flags hdoubles ha₁ hrs1 t
    rw [hmode₁, hw] at hv
    exact ⟨g, _, r₂, h₂, hrun₂, ha₂, he₂, rfl, v, rfl, hv⟩
  obtain ⟨g', f', r', h', hrun, ha', hscoped, rfl, hvalue⟩ := bracket_agrees (a := a) ha hok hbody
  refine ⟨f', r', h', ?_, ha', hscoped, hvalue⟩
  unfold translateOfInt withFpRound
  rw [bracketIf_pos (staticMode_ne_dyn hmode)]
  exact hrun

end Instructions

/-- An unsigned conversion with a static rounding mode leaves the integer in `rs1`, rounded to the
significant bits of the format in that mode, in `rd`; no other register of the guest changes,
wherever the registers lie. -/
theorem ofUnsigned_rounded (u : FpUnit) (flags : Flags) (m : FpMapping) (instr : RiscInstr)
    (t : IntType) (form : FpForm) (mode : Mode) (g : GuestState) (f : Nat → BitVec 64)
    (r : RegisterInfo) (h : FpState) (e : Bool) (a : Option Abort)
    (hinstr : fpConversion instr.mnem = some (.ofInt t form)) (hunsigned : t = .wu ∨ t = .lu)
    (hmode : staticMode instr.roundingMode = some mode) (hrs1 : instr.regSrc1 < 32)
    (hdoubles : u.ops.Doubles) (hagrees : Agrees m x0 g f r h) :
    ∃ emitter, fpConvertEmitter instr.mnem = some emitter ∧ ∃ v r' h',
      FpRuns u (emitter flags m instr) ⟨⟨r, e⟩, a⟩ h () ⟨⟨r', e⟩, a⟩ h' ∧
        Agrees m x0 g (Function.update f instr.regDest v) r' h' ∧ Scoped h h' ∧
        form.get v = convertFromInt form mode (t.source (g.read instr.regSrc1)) ∧
        form.format.value (form.get v) =
          mode.toBits (form.format.fracBits + 1) (t.source (g.read instr.regSrc1)) := by
  have hnat : ∃ n < 2 ^ 64, t.source (g.read instr.regSrc1) = ((n : Nat) : ℤ) := by
    rcases hunsigned with rfl | rfl
    · exact ⟨_, lt_trans (BitVec.isLt _) (by decide), rfl⟩
    · exact ⟨_, BitVec.isLt _, rfl⟩
  obtain ⟨n, hn, hsource⟩ := hnat
  obtain ⟨f', r', h', hrun, hagrees', hscoped, v, rfl, hvalue⟩ :=
    translateOfInt_delivers (u := u) (e := e) (a := a) flags form hdoubles hagrees hrs1 t hmode
  refine ⟨translateOfInt t form, by rw [fpConvertEmitter_eq, hinstr]; rfl, v, r', h', hrun,
    hagrees', hscoped, hvalue, ?_⟩
  rw [hvalue, hsource]
  exact (value_convertFromInt form mode hn).2.2

/-- The source has its highest bit set, lies past the middle of two singles by its lowest bit only,
and is rounded up. -/
theorem ofUnsigned_rounded_fcvtslu :
    ∃ emitter, fpConvertEmitter .fcvtslu = some emitter ∧ ∃ v r' h',
      FpRuns truncatingUnit (emitter {} .static ((fpInstr .fcvtslu 5 10 0).setRoundingMode 0#32))
          .start (valuedFp 0x8000008000000001#64 singles) () ⟨⟨r', false⟩, none⟩ h' ∧
        Agrees .static x0 (valuedGuest 0x8000008000000001#64) (Function.update singles 5 v) r' h' ∧
        Scoped (valuedFp 0x8000008000000001#64 singles) h' ∧
        FpForm.s.get v = convertFromInt .s .nearest 0x8000008000000001 ∧
        FpForm.s.format.value (FpForm.s.get v) =
          Mode.nearest.toBits (FpForm.s.format.fracBits + 1) 0x8000008000000001 :=
  ofUnsigned_rounded truncatingUnit {} .static ((fpInstr .fcvtslu 5 10 0).setRoundingMode 0#32)
    .lu .s .nearest (valuedGuest 0x8000008000000001#64) singles FpGenState.start.gen.rInfo
    (valuedFp 0x8000008000000001#64 singles) false none rfl (.inr rfl) rfl (by decide)
    truncatingArithmetic_doubles (valued_agrees 0x8000008000000001#64 singles)

end RiaJit.Translate
