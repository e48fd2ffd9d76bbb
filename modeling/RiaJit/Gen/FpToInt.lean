import RiaJit.Gen.FpCompare
import RiaJit.Gen.FpConvert
import RiaJit.X86.RoundedArithmetic

/-!
# Conversions to integers

What the code of `FCVT.W.S` and its variants leaves in `rd`. The unsigned forms look at
`FIRST_FP_REG` to find out whether the number is negative, which is where an unmapped `rs1` is
loaded, and the one for 64 bits subtracts the bias in the register of `rs1`.
-/

set_option autoImplicit false

namespace RiaJit.Translate

open EmitLogic ForwardJumps X86 Ieee

/-! ## The code behind the requests for registers -/

section Code

variable {u : FpUnit} {h h₁ : FpState} {p : XmmReg} {Q S : FeReg} (truncate : Bool)
  (form : FpForm)

/-- The mode of a conversion. -/
def conversionMode (truncate : Bool) (h : FpState) : Mode :=
  if truncate then .zero else roundingControl h.sse.mxcsr

/-- The zero that numbers are compared with. -/
def zeroPattern (form : FpForm) : BitVec form.width := BitVec.ofNat form.width 0

/-- A signed conversion. -/
def signedCode (Q : FeReg) (p : XmmReg) : OpSize → List FpInstr
  | .s32 => [.cvt2si truncate form .s32 Q p, .sse (.gp (.movsxr64r32 Q Q))]
  | .s64 => [.cvt2si truncate form .s64 Q p]

/-- What a signed conversion leaves in `rd`. -/
def signedValue (mode : Mode) (x : BitVec form.width) : OpSize → BitVec 64
  | .s32 => sext32 (indefiniteOr 32 (roundedValue form mode x))
  | .s64 => indefiniteOr 64 (roundedValue form mode x)

/-- A signed conversion is one instruction, in the mode that is set or truncating. -/
theorem signedCode_runs (size : OpSize) (Q : FeReg) (p : XmmReg) :
    ∃ h', runFrom (FpInstr.step u) 0 (signedCode truncate form Q p size) h = some h' ∧
      h'.reg Q = signedValue form (conversionMode truncate h) (form.get (h.xmm p)) size := by
  cases size with
  | s32 =>
      refine ⟨_, rfl, ?_⟩
      simp [signedValue, conversionMode, convertToInt, sext32]
  | s64 =>
      refine ⟨_, rfl, ?_⟩
      simp [signedValue, conversionMode, convertToInt]

theorem signedCode_confined (size : OpSize) (Q : FeReg) (p : XmmReg) :
    Confined (fun R => R = Q) (fun _ => False) (signedCode truncate form Q p size) := by
  cases size <;> simp [signedCode, confined_cons, confined_nil, onRegisters, writesReg, writesXmm]

/-- Before a number is sorted out or not. -/
structure Sorted (truncate : Bool) (form : FpForm) (Q : FeReg) (h h₁ : FpState) : Prop where
  zero : h₁.reg Q = 0#64
  xmm : ∀ p, p ≠ secondFpReg → h₁.xmm p = h.xmm p
  mode : conversionMode truncate h₁ = conversionMode truncate h
  negative : FpCond.a.holds h₁.flags =
    some (form.format.lt (form.get (h.xmm firstFpReg)) (zeroPattern form))

/-- The source is compared with zero, for the jump over the negative case. -/
theorem sortNegative_runs (Q : FeReg) :
    ∃ h₁, runFrom (FpInstr.step u) 0 (sortNegative form Q) h = some h₁ ∧
      Sorted truncate form Q h h₁ := by
  have hrun : runFrom (FpInstr.step u) 0 (sortNegative form Q) h = some _ := rfl
  have htouches := runFrom_touches (R := fun R => R = Q) (X := fun X => X = secondFpReg)
    (by simp [sortNegative, confined_cons, confined_nil, onRegisters, writesReg, writesXmm]) hrun
  refine ⟨_, hrun, ?_, htouches.xmm, ?_, ?_⟩
  · simp
  · unfold conversionMode
    rw [htouches.mode]
  · have hflags := not_lt_and_not_eq form.format (form.get (h.xmm firstFpReg)) (zeroPattern form)
    rw [← hflags]
    have hne : firstFpReg ≠ secondFpReg := by decide
    simp [zeroPattern, hne]

/-- What the code of `FCVT.WU` leaves in `rd`, where the number `y` is looked at for the sign. -/
def unsignedWordValue (mode : Mode) (y x : BitVec form.width) : BitVec 64 :=
  if form.format.lt y (zeroPattern form) then 0#64 else signedValue form mode x .s64

theorem toUnsignedWord_code (Q : FeReg) (p : XmmReg) :
    (toUnsignedWord form truncate Q p).code = sortNegative form Q ++
      .jump (some .a) (some (clearAgain form ++ signedCode truncate form Q p .s64).length) ::
        (clearAgain form ++ signedCode truncate form Q p .s64) := by
  cases form <;> rfl

/-- For singles the second replacement is cleared once more. -/
theorem clearAgain_runs : ∃ h', runFrom (FpInstr.step u) 0 (clearAgain form) h = some h' ∧
    Touches (fun _ => False) (fun X => X = secondFpReg) h h' := by
  cases form with
  | s =>
      have hrun : runFrom (FpInstr.step u) 0 (clearAgain .s) h = some _ := rfl
      exact ⟨_, hrun, runFrom_touches (by simp [clearAgain, confined_cons, confined_nil,
        onRegisters, writesReg, writesXmm]) hrun⟩
  | d => exact ⟨h, rfl, .refl h⟩

/-- An unsigned word is zero for a negative number, and else the low half of a signed conversion.
-/
theorem toUnsignedWord_runs (Q : FeReg) (hp : p ≠ secondFpReg) :
    ∃ h', runFrom (FpInstr.step u) 0 (toUnsignedWord form truncate Q p).code h = some h' ∧
      h'.reg Q = unsignedWordValue form (conversionMode truncate h)
        (form.get (h.xmm firstFpReg)) (form.get (h.xmm p)) := by
  obtain ⟨h₁, hrun₁, hsorted⟩ := sortNegative_runs (u := u) (h := h) truncate form Q
  rw [toUnsignedWord_code, runFrom_append _ hrun₁]
  unfold unsignedWordValue
  have hnegative := hsorted.negative
  cases hlt : form.format.lt (form.get (h.xmm firstFpReg)) (zeroPattern form) with
  | true =>
      rw [hlt] at hnegative
      refine ⟨h₁, ?_, hsorted.zero⟩
      rw [runFrom_taken hnegative]
      exact runFrom_length _ _ h₁
  | false =>
      rw [hlt] at hnegative
      obtain ⟨h₂, hrun₂, htouches₂⟩ := clearAgain_runs (u := u) (h := h₁) form
      obtain ⟨h₃, hrun₃, hvalue₃⟩ := signedCode_runs (u := u) (h := h₂) truncate form .s64 Q p
      refine ⟨h₃, ?_, ?_⟩
      · rw [runFrom_untaken hnegative, runFrom_append _ hrun₂]
        exact hrun₃
      · have hmode : conversionMode truncate h₂ = conversionMode truncate h := by
          rw [← hsorted.mode]
          unfold conversionMode
          rw [htouches₂.mode]
        rw [hvalue₃, hmode, htouches₂.xmm p hp, hsorted.xmm p hp]
        rfl

theorem toUnsignedWord_confined (Q : FeReg) (p : XmmReg) :
    Confined (fun R => R = Q) (fun X => X = firstFpReg ∨ X = secondFpReg)
      (toUnsignedWord form truncate Q p).code := by
  rw [toUnsignedWord_code]
  cases form <;> simp [sortNegative, clearAgain, signedCode, confined_cons, confined_nil,
    onRegisters, writesReg, writesXmm]

/-- What the code of `FCVT.LU` leaves in `rd`, where the number `y` is looked at for the sign. -/
def unsignedLongValue (mode : Mode) (y x : BitVec form.width) : BitVec 64 :=
  if form.format.lt y (zeroPattern form) then 0#64
  else if form.format.le (biasPattern form) x then
    indefiniteOr 64 (biasedValue form mode x) ^^^ 1#64 <<< 63
  else signedValue form mode x .s64

/-- The comparison with the bias. -/
def compareBias (S : FeReg) (p : XmmReg) : List FpInstr :=
  loadBias S form ++ [.comisrr false form p secondFpReg]

/-- The conversion of a number from which the bias is subtracted. -/
def biasedCode (Q : FeReg) (p : XmmReg) : List FpInstr :=
  [.sse (.arithrr .sub form p secondFpReg), .cvt2si truncate form .s64 Q p, .btc64ri Q 63]

/-- The code for a number that is not negative. -/
def nonnegativeCode (Q S : FeReg) (p : XmmReg) : List FpInstr :=
  compareBias form S p ++ .jump (some .nc) (some 2) ::
    (signedCode truncate form Q p .s64 ++ .jump none (some 3) :: biasedCode truncate form Q p)

theorem toUnsignedLong_code (Q S : FeReg) (p : XmmReg) :
    (toUnsignedLong form truncate Q S p).code = sortNegative form Q ++
      .jump (some .a) (some (nonnegativeCode truncate form Q S p).length) ::
        nonnegativeCode truncate form Q S p := by
  cases form <;> rfl

/-- The source is compared with `2 ^ 63`. -/
theorem compareBias_runs (S : FeReg) (hp : p ≠ secondFpReg) :
    ∃ h', runFrom (FpInstr.step u) 0 (compareBias form S p) h = some h' ∧
      Touches (fun R => R = S) (fun X => X = secondFpReg) h h' ∧
      form.get (h'.xmm secondFpReg) = biasPattern form ∧
      FpCond.nc.holds h'.flags =
        some (form.format.le (biasPattern form) (form.get (h.xmm p))) := by
  have hflags := not_lt form.format (biasPattern form) (form.get (h.xmm p))
  cases form with
  | s =>
      have hrun : runFrom (FpInstr.step u) 0 (compareBias .s S p) h = some _ := rfl
      refine ⟨_, hrun, runFrom_touches (by simp [compareBias, loadBias, confined_cons, confined_nil,
        onRegisters, writesReg, writesXmm]) hrun, ?_, ?_⟩
      · simp [biasPattern]
      · rw [← hflags]
        simp [biasPattern, hp]
  | d =>
      have hrun : runFrom (FpInstr.step u) 0 (compareBias .d S p) h = some _ := rfl
      refine ⟨_, hrun, runFrom_touches (by simp [compareBias, loadBias, confined_cons, confined_nil,
        onRegisters, writesReg, writesXmm]) hrun, ?_, ?_⟩
      · simp [biasPattern]
      · rw [← hflags]
        simp [biasPattern, hp]

/-- The bias is subtracted in the register of the source. -/
theorem biasedCode_runs (Q : FeReg) (p : XmmReg)
    (hbias : form.get (h.xmm secondFpReg) = biasPattern form) :
    ∃ h', runFrom (FpInstr.step u) 0 (biasedCode truncate form Q p) h = some h' ∧
      let y := u.ops.arith .sub form h.sse.mxcsr (form.get (h.xmm p)) (biasPattern form)
      h'.reg Q = convertToInt form .s64 (conversionMode truncate h) y ^^^ 1#64 <<< 63 ∧
        form.get (h'.xmm p) = y := by
  have hbias' : form.get (h.sse.xmm secondFpReg) = biasPattern form := hbias
  refine ⟨_, rfl, ?_⟩
  cases truncate with
  | true => simp [conversionMode, hbias']
  | false => simp [conversionMode, hbias', roundingControl_raised]

/-- Whether the bias is subtracted. -/
def Biased (y x : BitVec form.width) : Prop :=
  form.format.lt y (zeroPattern form) = false ∧ form.format.le (biasPattern form) x = true

/-- The three ways through the code of `FCVT.LU`. -/
theorem toUnsignedLong_runs (Q S : FeReg) (hp : p ≠ secondFpReg) :
    ∃ h', runFrom (FpInstr.step u) 0 (toUnsignedLong form truncate Q S p).code h = some h' ∧
      (u.ops.Subtracts → h'.reg Q = unsignedLongValue form (conversionMode truncate h)
        (form.get (h.xmm firstFpReg)) (form.get (h.xmm p))) ∧
      (¬ Biased form (form.get (h.xmm firstFpReg)) (form.get (h.xmm p)) →
        ∀ q, q ≠ secondFpReg → h'.xmm q = h.xmm q) ∧
      (Biased form (form.get (h.xmm firstFpReg)) (form.get (h.xmm p)) →
        ∃ mxcsr, form.get (h'.xmm p) =
          u.ops.arith .sub form mxcsr (form.get (h.xmm p)) (biasPattern form)) := by
  obtain ⟨h₁, hrun₁, hsorted⟩ := sortNegative_runs (u := u) (h := h) truncate form Q
  rw [toUnsignedLong_code, runFrom_append _ hrun₁]
  unfold unsignedLongValue Biased
  have hnegative := hsorted.negative
  cases hlt : form.format.lt (form.get (h.xmm firstFpReg)) (zeroPattern form) with
  | true =>
      -- a negative source: the zero that was loaded is the result
      rw [hlt] at hnegative
      refine ⟨h₁, ?_, fun _ => hsorted.zero, fun _ => hsorted.xmm, fun hb => absurd hb.1 nofun⟩
      rw [runFrom_taken hnegative]
      exact runFrom_length _ _ h₁
  | false =>
      rw [hlt] at hnegative
      obtain ⟨h₂, hrun₂, htouches₂, hbias₂, hlarge⟩ :=
        compareBias_runs (u := u) (h := h₁) form S hp
      have hxmm₂ : ∀ q, q ≠ secondFpReg → h₂.xmm q = h.xmm q := fun q hq =>
        (htouches₂.xmm q hq).trans (hsorted.xmm q hq)
      have hmode₂ : conversionMode truncate h₂ = conversionMode truncate h := by
        rw [← hsorted.mode]
        unfold conversionMode
        rw [htouches₂.mode]
      rw [hsorted.xmm p hp] at hlarge
      rw [runFrom_untaken hnegative]
      unfold nonnegativeCode
      rw [runFrom_append _ hrun₂]
      cases hle : form.format.le (biasPattern form) (form.get (h.xmm p)) with
      | true =>
          -- from `2 ^ 63` on: the difference is converted and the top bit put back
          rw [hle] at hlarge
          obtain ⟨h₃, hrun₃, hvalue₃, hdifference₃⟩ :=
            biasedCode_runs (u := u) (h := h₂) truncate form Q p hbias₂
          rw [hxmm₂ p hp] at hvalue₃ hdifference₃
          refine ⟨h₃, ?_, fun hsub => ?_, fun hnot => absurd ⟨rfl, rfl⟩ hnot,
            fun _ => ⟨_, hdifference₃⟩⟩
          · rw [runFrom_taken hlarge]
            exact hrun₃
          · rw [hvalue₃, hmode₂, convertToInt_sub hsub form _ _ hle]
            rfl
      | false =>
          rw [hle] at hlarge
          obtain ⟨h₃, hrun₃, hvalue₃⟩ :=
            signedCode_runs (u := u) (h := h₂) truncate form .s64 Q p
          have htouches₃ := runFrom_touches (signedCode_confined truncate form .s64 Q p) hrun₃
          refine ⟨h₃, ?_, fun _ => ?_, fun _ q hq => (htouches₃.xmm q id).trans (hxmm₂ q hq),
            fun hb => absurd hb.2 nofun⟩
          · rw [runFrom_untaken hlarge, runFrom_append _ hrun₃, runFrom_jump]
            exact runFrom_length _ (biasedCode truncate form Q p) h₃
          · rw [hvalue₃, hmode₂, hxmm₂ p hp]
            rfl

theorem toUnsignedLong_confined (Q S : FeReg) (p : XmmReg) :
    Confined (fun R => R = Q ∨ R = S) (fun X => X = secondFpReg ∨ X = p)
      (toUnsignedLong form truncate Q S p).code := by
  rw [toUnsignedLong_code]
  cases form <;> simp [nonnegativeCode, compareBias, loadBias, biasedCode, sortNegative, signedCode,
    confined_cons, confined_nil, onRegisters, writesReg, writesXmm]

end Code

/-! ## Requests -/

section Requests

variable {u : FpUnit} {m : FpMapping} {instr : RiscInstr} {g : GuestState}
  {f : Nat → BitVec 64} {r : RegisterInfo} {h : FpState} {e : Bool} {a : Option Abort}
  (flags : Flags)

/-- The register that a mapped operand is requested in, without a load. -/
theorem getFpReg_eq_noLoad {x : Nat} (hmapped : m.fpMap x ≠ none) (replacement : XmmReg) :
    getFpReg flags m x replacement = getFpRegNoLoad flags m x replacement := by
  unfold getFpReg getFpRegNoLoad
  cases hmap : m.fpMap x with
  | none => exact absurd hmap hmapped
  | some q => rfl

/-- What the emitters find in `FIRST_FP_REG` after the request for `rs1`. -/
def firstSeen (m : FpMapping) (f : Nat → BitVec 64) (x : Nat) (h : FpState) : BitVec 64 :=
  if m.fpMap x = none then f x else h.xmm firstFpReg

/-- The source is loaded or is where it is mapped to; what the first replacement holds is then
known. -/
theorem getFpReg_first (ha : Agrees m x0 g f r h) (x : Nat) (s : FpGenState) :
    ∃ p h', FpRuns u (liftM (getFpReg flags m x firstFpReg)) s h p s h' ∧ Agrees m x0 g f r h' ∧
      Elsewhere h h' ∧ p = (m.fpMap x).getD firstFpReg ∧ h'.xmm p = f x ∧
      h'.xmm firstFpReg = firstSeen m f x h := by
  unfold firstSeen
  by_cases hmapped : m.fpMap x = none
  · obtain ⟨p, h', hrun, ha', he', hvalue, hop, -⟩ :=
      getFpReg_agrees (u := u) flags ha x firstFpReg (.inl rfl) s
    have hp : p = firstFpReg := hop.elim id fun hmap => absurd (hmapped.symm.trans hmap) nofun
    subst hp
    exact ⟨_, h', hrun, ha', he', by rw [hmapped]; rfl, hvalue, by rw [if_pos hmapped, hvalue]⟩
  · obtain ⟨h', hrun, ha', he', hxmm, -⟩ :=
      getFpRegNoLoad_agrees (u := u) flags ha x firstFpReg s
    rw [← getFpReg_eq_noLoad flags hmapped] at hrun
    refine ⟨_, h', hrun, ha', he', rfl, ?_, by rw [if_neg hmapped, hxmm]⟩
    rw [← ha'.fp x]
    unfold fpValue
    cases hmap : m.fpMap x with
    | none => exact absurd hmap hmapped
    | some q => rfl

/-- What is known when the code of a conversion to an integer begins. -/
structure Requested (m : FpMapping) (instr : RiscInstr) (g : GuestState) (f : Nat → BitVec 64)
    (h : FpState) (p : XmmReg) (Q : FeReg) (r₁ : RegisterInfo) (h₁ : FpState) : Prop where
  agrees : Agrees m instr.regDest g f r₁ h₁
  elsewhere : Elsewhere h h₁
  place : p = (m.fpMap instr.regSrc1).getD firstFpReg
  source : h₁.xmm p = f instr.regSrc1
  first : h₁.xmm firstFpReg = firstSeen m f instr.regSrc1 h
  located : Located r₁ Q instr.regDest

/-- Both registers are requested, with the values that they have. -/
theorem requested (ha : Agrees m x0 g f r h) (hrd : instr.regDest < 32) :
    ∃ p Q h₀ r₁ h₁, FpRuns u (liftM (getFpReg flags m instr.regSrc1 firstFpReg)) ⟨⟨r, e⟩, a⟩ h p
        ⟨⟨r, e⟩, a⟩ h₀ ∧
      FpRuns u (liftM (getRd flags instr)) ⟨⟨r, e⟩, a⟩ h₀ Q ⟨⟨r₁, e⟩, a⟩ h₁ ∧
      Requested m instr g f h p Q r₁ h₁ ∧ Pinned r₁ Q instr.regDest 0 := by
  obtain ⟨p, h₀, hrun₀, ha₀, he₀, hplace, hsource, hfirst⟩ :=
    getFpReg_first (u := u) flags ha instr.regSrc1 ⟨⟨r, e⟩, a⟩
  obtain ⟨Q, r₁, h₁, hrun₁, ha₁, he₁, hxmm₁, hloc, hpinned⟩ :=
    getRd_agrees (u := u) (e := e) (a := a) flags ha₀ hrd
  exact ⟨p, Q, h₀, r₁, h₁, hrun₀, hrun₁, ⟨ha₁, he₀.trans he₁, hplace, (hxmm₁ p).trans hsource,
    (hxmm₁ _).trans hfirst, hloc⟩, hpinned⟩

variable {p : XmmReg} {Q : FeReg} {r₁ : RegisterInfo} {h₁ h₂ : FpState}

/-- The source does not lie in the second replacement. -/
theorem Requested.ne_second (hreq : Requested m instr g f h p Q r₁ h₁) : p ≠ secondFpReg := by
  rw [hreq.place]
  cases hmap : m.fpMap instr.regSrc1 with
  | none => decide
  | some q =>
      rintro rfl
      exact m.second _ hmap

/-- Requesting registers does not change the rounding mode. -/
theorem Requested.mode (hreq : Requested m instr g f h p Q r₁ h₁) (truncate : Bool) :
    conversionMode truncate h₁ = conversionMode truncate h := by
  unfold conversionMode
  rw [hreq.elsewhere.mode]

/-- A scratch register is emptied, which is not the one of `rd`. -/
theorem Requested.invalidateOldest (hreq : Requested m instr g f h p Q r₁ h₁)
    (hrd : instr.regDest < 32) (hpinned : Pinned r₁ Q instr.regDest 0) :
    ∃ r₂ h₂, FpRuns u (liftM invalidateOldest) ⟨⟨r₁, e⟩, a⟩ h₁ (getRegForIndex r₁.oldest)
        ⟨⟨r₂, e⟩, a⟩ h₂ ∧ Requested m instr g f h p Q r₂ h₂ ∧
      r₂.replacementContent r₁.oldest = invalidReg := by
  obtain ⟨r₂, h₂, hrun₂, ha₂, he₂, hxmm₂, hempty, hothers, -⟩ :=
    invalidateOldest_agrees (u := u) (e := e) (a := a) hreq.agrees
  have hne : Q ≠ getRegForIndex r₁.oldest :=
    (hpinned.mono (Nat.zero_le 1)).ne_oldest hreq.agrees.rep.wf hrd
  have hloc : Located r₂ Q instr.regDest := by
    rcases hreq.located with hmap | ⟨hmap, i, rfl, hi⟩
    · exact .inl hmap
    · refine .inr ⟨hmap, i, rfl, ?_⟩
      rw [hothers i fun heq => hne (by rw [heq]), hi]
  exact ⟨r₂, h₂, hrun₂, ⟨ha₂, hreq.elsewhere.trans he₂, hreq.place, (hxmm₂ p).trans hreq.source,
    (hxmm₂ _).trans hreq.first, hloc⟩, hempty⟩

/-- The code has written `rd`, and nothing else but empty registers. -/
theorem Requested.deliver (hreq : Requested m instr g f h p Q r₁ h₁) (hrd : instr.regDest < 32)
    {R : FeReg → Prop} {X : XmmReg → Prop} (ht : Touches R X h₁ h₂)
    (hR : ∀ q, R q → q = Q ∨ ∃ i, q = getRegForIndex i ∧ r₁.replacementContent i = invalidReg) :
    Represents x0 (g.write instr.regDest (h₂.reg Q)) r₁ h₂.sse.host ∧ Elsewhere h h₂ := by
  have hloc := hreq.located
  refine ⟨hreq.agrees.rep.scratch hloc hrd ht.scratches (fun i hi => ?_)
    (fun y mapped hmap hq => ?_), hreq.elsewhere.trans (ht.elsewhere fun hsp => ?_)⟩
  · rcases hR _ hi with hQ | ⟨j, hj, hempty⟩
    · exact .inr (hloc.held i hQ)
    · rw [getRegForIndex_injective hj]
      exact .inl hempty
  · rcases hR _ hq with hQ | ⟨j, hj, -⟩
    · exact hloc.mapped (by rwa [← hQ])
    · exact absurd hj (gpMap_ne_replacement hmap j)
  · rcases hR _ hsp with hQ | ⟨j, hj, -⟩
    · exact hloc.ne_sp hQ.symm
    · exact getRegForIndex_ne_sp j hj.symm

end Requests

/-! ## The code between the helpers -/

section Bodies

variable {u : FpUnit} {m : FpMapping} {instr : RiscInstr} {g : GuestState}
  {f : Nat → BitVec 64} {r : RegisterInfo} {h : FpState} {e : Bool} {a : Option Abort}
  (form : FpForm) (flags : Flags) (truncate : Bool)

/-- The code leaves this value in `rd`, and the floating-point registers as they say. -/
def DeliversInt (u : FpUnit) (m : FpMapping) (instr : RiscInstr) (g : GuestState)
    (f' : Nat → BitVec 64) (r : RegisterInfo) (h : FpState) (e : Bool) (a : Option Abort)
    (body : FpCode Unit) (v : BitVec 64) : Prop :=
  ∃ r' h', FpRuns u body ⟨⟨r, e⟩, a⟩ h () ⟨⟨r', e⟩, a⟩ h' ∧
    Agrees m x0 (g.write instr.regDest v) f' r' h' ∧ Elsewhere h h'

/-- A conversion whose code writes `rd` and the replacements only. -/
theorem intBody_delivers (code : FeReg → XmmReg → List FpInstr)
    (value : Mode → BitVec form.width → BitVec form.width → BitVec 64)
    (hruns : ∀ h Q p, p ≠ secondFpReg →
      ∃ h', runFrom (FpInstr.step u) 0 (code Q p) h = some h' ∧ h'.reg Q =
        value (conversionMode truncate h) (form.get (h.xmm firstFpReg)) (form.get (h.xmm p)))
    (hconfined : ∀ Q p, Confined (fun R => R = Q) (fun X => X = firstFpReg ∨ X = secondFpReg)
      (code Q p))
    (ha : Agrees m x0 g f r h) (hrd : instr.regDest < 32) :
    DeliversInt u m instr g f r h e a
      ((liftM (getFpReg flags m instr.regSrc1 firstFpReg) : FpCode XmmReg) >>= fun p =>
        (liftM (getRd flags instr) : FpCode FeReg) >>= fun Q => emitCode (code Q p))
      (value (conversionMode truncate h) (form.get (firstSeen m f instr.regSrc1 h))
        (form.get (f instr.regSrc1))) := by
  obtain ⟨p, Q, h₀, r₁, h₁, hrun₀, hrun₁, hreq, -⟩ :=
    requested (u := u) (e := e) (a := a) flags ha hrd
  obtain ⟨h₂, hrun₂, hvalue₂⟩ := hruns h₁ Q p hreq.ne_second
  have htouches := runFrom_touches (hconfined Q p) hrun₂
  obtain ⟨hrep, helse⟩ := hreq.deliver hrd htouches fun q hq => .inl hq
  rw [hvalue₂, hreq.mode, hreq.first, hreq.source] at hrep
  exact ⟨r₁, h₂, .bind hrun₀ (.bind hrun₁ (runs_emitCode _ hrun₂)), ⟨hrep, fun x =>
    (htouches.fpValue (scratch_unmapped (fun _ hX => hX) x)).trans (hreq.agrees.fp x)⟩, helse⟩

/-- What the code of a conversion leaves in `rd`, where `y` is looked at for the sign. -/
def toIntValue (form : FpForm) (mode : Mode) (y x : BitVec form.width) : IntType → BitVec 64
  | .w => signedValue form mode x .s32
  | .wu => unsignedWordValue form mode y x
  | .l => signedValue form mode x .s64
  | .lu => unsignedLongValue form mode y x

/-- All conversions but the one of 64 bits without a sign. -/
theorem toIntBody_delivers (ha : Agrees m x0 g f r h) (hrd : instr.regDest < 32) {t : IntType}
    (ht : t ≠ .lu) :
    DeliversInt u m instr g f r h e a (toIntBody form flags m instr t truncate)
      (toIntValue form (conversionMode truncate h) (form.get (firstSeen m f instr.regSrc1 h))
        (form.get (f instr.regSrc1)) t) := by
  have hwiden : ∀ Q p size, Confined (fun R => R = Q) (fun X => X = firstFpReg ∨ X = secondFpReg)
      (signedCode truncate form Q p size) := fun Q p size =>
    (signedCode_confined truncate form size Q p).mono (fun _ hR => hR) fun _ hX => hX.elim
  cases t with
  | w =>
      exact intBody_delivers form flags truncate (fun Q p => signedCode truncate form Q p .s32)
        (fun mode _ x => signedValue form mode x .s32)
        (fun h Q p _ => signedCode_runs truncate form .s32 Q p) (fun Q p => hwiden Q p .s32) ha hrd
  | l =>
      exact intBody_delivers form flags truncate (fun Q p => signedCode truncate form Q p .s64)
        (fun mode _ x => signedValue form mode x .s64)
        (fun h Q p _ => signedCode_runs truncate form .s64 Q p) (fun Q p => hwiden Q p .s64) ha hrd
  | wu =>
      exact intBody_delivers form flags truncate
        (fun Q p => (toUnsignedWord form truncate Q p).code) (unsignedWordValue form)
        (fun h Q p hp => toUnsignedWord_runs truncate form Q hp)
        (fun Q p => toUnsignedWord_confined truncate form Q p) ha hrd
  | lu => exact absurd rfl ht

/-- `FCVT.LU` also changes the register of a mapped `rs1` where it subtracts the bias. -/
theorem unsignedLongBody_delivers (ha : Agrees m x0 g f r h) (hrd : instr.regDest < 32) :
    let y := form.get (firstSeen m f instr.regSrc1 h)
    let x := form.get (f instr.regSrc1)
    ∃ v f', DeliversInt u m instr g f' r h e a (toIntBody form flags m instr .lu truncate) v ∧
      (u.ops.Subtracts → v = toIntValue form (conversionMode truncate h) y x .lu) ∧
      (∀ n, n ≠ instr.regSrc1 → f' n = f n) ∧
      (m.fpMap instr.regSrc1 = none ∨ ¬ Biased form y x → f' = f) ∧
      (m.fpMap instr.regSrc1 ≠ none → Biased form y x → ∃ mxcsr,
        form.get (f' instr.regSrc1) = u.ops.arith .sub form mxcsr x (biasPattern form)) := by
  dsimp only
  obtain ⟨p, Q, h₀, r₁, h₁, hrun₀, hrun₁, hreq₁, hpinned⟩ :=
    requested (u := u) (e := e) (a := a) flags ha hrd
  obtain ⟨r₂, h₂, hrun₂, hreq, hempty⟩ :=
    hreq₁.invalidateOldest (u := u) (e := e) (a := a) hrd hpinned
  obtain ⟨h₃, hrun₃, hvalue₃, hkept₃, hbiased₃⟩ := toUnsignedLong_runs (u := u) (h := h₂) truncate
    form Q (getRegForIndex r₁.oldest) hreq.ne_second
  have htouches := runFrom_touches (toUnsignedLong_confined truncate form Q _ p) hrun₃
  obtain ⟨hrep, helse⟩ := hreq.deliver hrd htouches
    fun q hq => hq.elim .inl fun hS => .inr ⟨_, hS, hempty⟩
  rw [hreq.mode, hreq.first, hreq.source] at hvalue₃
  rw [hreq.first, hreq.source] at hkept₃ hbiased₃
  -- a register that is mapped elsewhere keeps its value
  have hothers : ∀ n, m.fpMap n ≠ some p → fpValue m h₃.sse n = f n := by
    intro n hn
    refine (htouches.fpValue fun q hq hX => ?_).trans (hreq.agrees.fp n)
    rcases hX with rfl | rfl
    · exact m.second n hq
    · exact hn hq
  refine ⟨_, fun n => fpValue m h₃.sse n, ⟨r₂, h₃, .bind hrun₀ (.bind hrun₁ (.bind hrun₂
    (runs_emitCode _ hrun₃))), ⟨hrep, fun _ => rfl⟩, helse⟩, hvalue₃,
    fun n hn => hothers n fun hmap => ?_, fun hor => funext fun n => ?_, fun hmapped hb => ?_⟩
  · cases hsrc : m.fpMap instr.regSrc1 with
    | none =>
        rw [hreq.place, hsrc] at hmap
        exact m.first n hmap
    | some q =>
        rw [hreq.place, hsrc] at hmap
        exact hn (m.injective n instr.regSrc1 q hmap hsrc)
  · rcases hor with hnone | hnot
    · refine hothers n fun hmap => ?_
      rw [hreq.place, hnone] at hmap
      exact m.first n hmap
    · have hnarrow : ∀ q, m.fpMap n = some q → h₃.xmm q = h₂.xmm q := fun q hq =>
        hkept₃ hnot q fun hsecond => m.second n (by rw [hq, hsecond])
      rw [← hreq.agrees.fp n]
      unfold fpValue
      cases hmap : m.fpMap n with
      | none => exact congrFun htouches.cell _
      | some q => exact hnarrow q hmap
  · obtain ⟨mxcsr, hdifference⟩ := hbiased₃ hb
    refine ⟨mxcsr, ?_⟩
    rw [← hdifference, hreq.place]
    show form.get (fpValue m h₃.sse instr.regSrc1) = _
    unfold fpValue
    cases hmap : m.fpMap instr.regSrc1 with
    | none => exact absurd hmap hmapped
    | some q => rfl

end Bodies

end RiaJit.Translate
