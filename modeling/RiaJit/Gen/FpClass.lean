import RiaJit.Gen.FpCompare

/-!
# Classes

The emitters of `translate_f_ext.c` and `translate_d_ext.c` for `FCLASS`. The code branches on the
exponent, which is all zeros, all ones or neither, and on the fraction; the bit for the class is
made from the one for the positive class by a shift that depends on the sign.
-/

set_option autoImplicit false

namespace RiaJit.Translate

open EmitLogic ForwardJumps X86 Ieee

/-! ## Constants -/

/-- `NEG_ZERO`. -/
def negZero : BitVec 64 := 0x8#64

/-- `POS_SUBNORMAL`. -/
def posSubnormal : BitVec 64 := 0x20#64

/-- `POS_NORMAL`. -/
def posNormal : BitVec 64 := 0x40#64

/-- `POS_INFINITY`. -/
def posInfinity : BitVec 64 := 0x80#64

/-- `SIG_NAN`. -/
def sigNan : BitVec 64 := 0x100#64

/-! ## Emitters -/

section Pieces

variable (destReg : FeReg) (src : XmmReg)

/-- The pattern is copied, and its exponent masked. For a single the sign is noted here. -/
def classPrologue : FpForm → List FpInstr
  | .s => [.movToReg .d destReg src, .sse (.gp (.movrr .s64 .dx destReg)),
      .sse (.gp (.test32rr .dx .dx)), .set8r .ns .cx, .and32ri destReg 0x7f800000#32]
  | .d => [.movToReg .d destReg src, .sse (.gp (.movrr .s64 .dx destReg)),
      .sse (.gp (.mov64ri .cx 0x7ff0000000000000#64)), .and64rr destReg .cx]

/-- The comparison of the exponent with all ones. -/
def classCompare : FpForm → List FpInstr
  | .s => [.cmp32ri destReg 0x7f800000#32]
  | .d => [.sse (.gp (.cmp64rr destReg .cx))]

/-- For a double the sign is noted at the start of each branch. -/
def classSign : FpForm → List FpInstr
  | .s => []
  | .d => [.sse (.gp (.test64rr .dx .dx)), .set8r .ns .cx]

/-- Only the fraction is kept. -/
def classFraction : FpForm → List FpInstr
  | .s => [.shlri .s32 .dx 9]
  | .d => [.shlri .s64 .dx 12]

/-- The bit of the positive class, shifted down by `k` for a negative number. -/
def classDown (bit : BitVec 64) (k : BitVec 8) : List FpInstr :=
  [.sse (.gp (.mov64ri destReg bit)), .dec8r .cx, .and8ri .cx k, .shr8rr destReg .cx]

/-- The bit of a zero, shifted up for a positive one. -/
def classZero : List FpInstr :=
  [.sse (.gp (.mov64ri destReg negZero)), .shl8rr destReg .cx]

/-- The bit of a NaN, shifted up for a quiet one. -/
def classNaN : FpForm → List FpInstr
  | .s => [.sse (.gp (.test32rr .dx .dx)), .sse (.gp (.mov64ri destReg sigNan)), .set8r .s .cx,
      .shl16rr destReg .cx]
  | .d => [.sse (.gp (.test64rr .dx .dx)), .sse (.gp (.mov64ri destReg sigNan)), .set8r .s .cx,
      .shl16rr destReg .cx]

open Patched

/-- The code of `FCLASS` behind the requests for registers. -/
def classify (form : FpForm) : Patched FpInstr Unit := do
  putAll (classPrologue destReg src form)
  let jmpBufEAZ ← here
  put (.jump (some .z) none)
  putAll (classCompare destReg form)
  let jmpBufEAO ← here
  put (.jump (some .z) none)
  -- must be normal here
  putAll (classSign form)
  putAll (classDown destReg posNormal 5#8)
  let jmpBufEnd0 ← here
  put (.jump none none)
  -- exponent is all zeroes
  patch jmpBufEAZ fun n => .jump (some .z) (some n)
  putAll (classSign form)
  putAll (classFraction form)
  let jmpBufSubNormal ← here
  put (.jump (some .nz) none)
  putAll (classZero destReg)
  let jmpBufEnd1 ← here
  put (.jump none none)
  -- subnormal
  patch jmpBufSubNormal fun n => .jump (some .nz) (some n)
  putAll (classDown destReg posSubnormal 3#8)
  let jmpBufEnd2 ← here
  put (.jump none none)
  -- exponent is all ones
  patch jmpBufEAO fun n => .jump (some .z) (some n)
  putAll (classSign form)
  putAll (classFraction form)
  let jmpBufNAN ← here
  put (.jump (some .nz) none)
  putAll (classDown destReg posInfinity 7#8)
  let jmpBufEnd3 ← here
  put (.jump none none)
  -- NAN
  patch jmpBufNAN fun n => .jump (some .nz) (some n)
  putAll (classNaN destReg form)
  -- set all jump pointers
  patch jmpBufEnd0 fun n => .jump none (some n)
  patch jmpBufEnd1 fun n => .jump none (some n)
  patch jmpBufEnd2 fun n => .jump none (some n)
  patch jmpBufEnd3 fun n => .jump none (some n)

end Pieces

/-- What `FCLASS` emits for either width. -/
def translateFCLASS (form : FpForm) (flags : Flags) (m : FpMapping) (instr : RiscInstr) :
    FpCode Unit := do
  let regSrc1 ← getFpReg flags m instr.regSrc1 firstFpReg
  let destReg ← getRdHinted flags instr 0
  invalidateReplacement 1
  invalidateReplacement 2
  emitPatched (classify destReg regSrc1 form)

/-- `translate_FCLASSS`: the class of a single. -/
def translateFCLASSS := translateFCLASS .s

/-- `translate_FCLASSD`: the class of a double. -/
def translateFCLASSD := translateFCLASS .d

/-! ## Branches -/

section Branches

variable (destReg : FeReg) (src : XmmReg) (form : FpForm)

/-- What is run for a NaN or an infinity. -/
def classOnes : List FpInstr :=
  classSign form ++ (classFraction form ++ .jump (some .nz) (some 5) ::
    (classDown destReg posInfinity 7#8 ++ .jump none (some (classNaN destReg form).length) ::
      classNaN destReg form))

/-- What is run for a zero or a subnormal. -/
def classZeros : List FpInstr :=
  classSign form ++ (classFraction form ++ .jump (some .nz) (some 3) ::
    (classZero destReg ++ .jump none (some (5 + (classOnes destReg form).length)) ::
      (classDown destReg posSubnormal 3#8 ++ [.jump none (some (classOnes destReg form).length)])))

/-- What is run for a normal number. -/
def classNormal : List FpInstr :=
  classSign form ++ (classDown destReg posNormal 5#8 ++
    [.jump none (some (classZeros destReg form ++ classOnes destReg form).length)])

/-- The code with its jumps filled in. -/
theorem classify_code :
    (classify destReg src form).code = classPrologue destReg src form ++
      .jump (some .z) (some (classCompare destReg form ++ .jump (some .z)
          (some (classNormal destReg form ++ classZeros destReg form).length) ::
          classNormal destReg form).length) ::
        (classCompare destReg form ++ .jump (some .z)
          (some (classNormal destReg form ++ classZeros destReg form).length) ::
          (classNormal destReg form ++ (classZeros destReg form ++ classOnes destReg form))) := by
  cases form with
  | s =>
      simp [classify, Patched.code, bind, Patched.putAll, Patched.here, Patched.put, Patched.patch,
        classPrologue, classNormal, classZeros, classOnes, classCompare, classSign, classFraction,
        classDown, classZero, classNaN]
  | d =>
      simp [classify, Patched.code, bind, Patched.putAll, Patched.here, Patched.put, Patched.patch,
        classPrologue, classNormal, classZeros, classOnes, classCompare, classSign, classFraction,
        classDown, classZero, classNaN]

end Branches

/-! ## What the pieces compute -/

/-- The low byte of `CX` is one for a positive number and zero for a negative one. -/
def SignNoted (h : FpState) (negative : Bool) : Prop :=
  (h.reg .cx).setWidth 8 = (BitVec.ofBool !negative).setWidth 8

/-- The pattern is in `DX`, and for a single the sign is noted. -/
structure Classifying (form : FpForm) (x : BitVec form.width) (h : FpState) : Prop where
  scalar : form.get (h.reg .dx) = x
  noted : form = .s → SignNoted h x.msb

/-- The exponent of which all bits are ones. -/
def exponentMask : (form : FpForm) → BitVec form.width
  | .s => 0x7f800000#32
  | .d => 0x7ff0000000000000#64

theorem exponentMask_eq (form : FpForm) :
    BitVec.ofNat form.width form.format.infinity = exponentMask form := by
  cases form with
  | s => rfl
  | d => rfl

/-- The masked exponent is in the destination, and for a double the mask is in `CX`. -/
structure ExponentIn (form : FpForm) (x : BitVec form.width) (destReg : FeReg) (h : FpState) :
    Prop where
  scalar : form.get (h.reg destReg) = x &&& exponentMask form
  mask : form = .d → h.reg .cx = 0x7ff0000000000000#64

section Runs

variable {u : FpUnit} {h : FpState} {Q : FeReg} {p : XmmReg} {form : FpForm}

theorem classPrologue_runs (form : FpForm) (hdx : Q ≠ .dx) (hcx : Q ≠ .cx) :
    ∃ h', runFrom (FpInstr.step u) 0 (classPrologue Q p form) h = some h' ∧
      Classifying form (h.scalar form p) h' ∧ ExponentIn form (h.scalar form p) Q h' ∧
      h'.flags.zf = some (h.scalar form p &&& exponentMask form == BitVec.ofNat form.width 0) := by
  cases form with
  | s =>
      refine ⟨_, rfl, ⟨?_, fun _ => ?_⟩, ⟨?_, nofun⟩, ?_⟩
      · simp [hdx.symm]
      · simp [SignNoted, hcx.symm]
      · simp [hcx, hdx, exponentMask]
        rfl
      · simp [hcx, hdx, exponentMask]
        rfl
  | d =>
      refine ⟨_, rfl, ⟨?_, nofun⟩, ⟨?_, fun _ => ?_⟩, ?_⟩
      · simp [hdx.symm]
      · simp [hdx, hcx, exponentMask]
        rfl
      · simp [hcx.symm]
      · simp [hdx, hcx, exponentMask]
        rfl

theorem classCompare_runs {x : BitVec form.width} (hc : Classifying form x h)
    (he : ExponentIn form x Q h) :
    ∃ h', runFrom (FpInstr.step u) 0 (classCompare Q form) h = some h' ∧
      Classifying form x h' ∧
      h'.flags.zf = some (x &&& exponentMask form == exponentMask form) := by
  obtain ⟨hscalar, hnoted⟩ := hc
  obtain ⟨hexp, hmask⟩ := he
  cases form with
  | s =>
      refine ⟨_, rfl, ⟨?_, fun _ => ?_⟩, ?_⟩
      · simpa using hscalar
      · simpa [SignNoted] using hnoted rfl
      · simp at hexp
        simp [FpFlags.ofHost, hexp, exponentMask]
        rfl
  | d =>
      refine ⟨_, rfl, ⟨?_, nofun⟩, ?_⟩
      · simpa using hscalar
      · simp at hexp hmask
        simp [FpFlags.ofHost, hexp, hmask, exponentMask]
        rfl

theorem classSign_runs {x : BitVec form.width} (hc : Classifying form x h) :
    ∃ h', runFrom (FpInstr.step u) 0 (classSign form) h = some h' ∧
      form.get (h'.reg .dx) = x ∧ SignNoted h' x.msb := by
  obtain ⟨hscalar, hnoted⟩ := hc
  cases form with
  | s => exact ⟨h, rfl, hscalar, hnoted rfl⟩
  | d =>
      refine ⟨_, rfl, ?_, ?_⟩
      · simpa using hscalar
      · subst hscalar
        simp [SignNoted]

theorem classFraction_runs {x : BitVec form.width} (hx : form.get (h.reg .dx) = x)
    (hs : SignNoted h x.msb) :
    ∃ h', runFrom (FpInstr.step u) 0 (classFraction form) h = some h' ∧
      form.get (h'.reg .dx) = x <<< (form.width - form.format.fracBits) ∧
      SignNoted h' x.msb ∧
      h'.flags.zf =
        some (x <<< (form.width - form.format.fracBits) == BitVec.ofNat form.width 0) := by
  cases form with
  | s =>
      refine ⟨_, rfl, ?_, ?_, ?_⟩
      · simp at hx
        simp [hx, FpForm.format]
        rfl
      · simpa [SignNoted] using hs
      · simp at hx
        simp [hx, FpForm.format]
        rfl
  | d =>
      refine ⟨_, rfl, ?_, ?_, ?_⟩
      · simp at hx
        simp [hx, FpForm.format]
        rfl
      · simpa [SignNoted] using hs
      · simp at hx
        simp [hx, FpForm.format]
        rfl

/-- The bit of a class, for a negative and for a positive number. -/
theorem classDown_runs {negative : Bool} (bit : BitVec 64) (k : BitVec 8) (c d : Nat)
    (hcx : Q ≠ .cx) (hs : SignNoted h negative)
    (hbit : low 8 bit (bit.setWidth 8 >>>
      (((BitVec.ofBool !negative).setWidth 8 - 1#8 &&& k).toNat % 32)) =
        1#64 <<< if negative then c else d) :
    ∃ h', runFrom (FpInstr.step u) 0 (classDown Q bit k) h = some h' ∧
      h'.reg Q = 1#64 <<< if negative then c else d := by
  rw [← hbit]
  refine ⟨_, rfl, ?_⟩
  simp [SignNoted] at hs
  simp [hcx, hcx.symm, FpInstr.shiftCount, hs]

theorem classZero_runs {negative : Bool} (hcx : Q ≠ .cx) (hs : SignNoted h negative) :
    ∃ h', runFrom (FpInstr.step u) 0 (classZero Q) h = some h' ∧
      h'.reg Q = 1#64 <<< if negative then 3 else 4 := by
  refine ⟨_, rfl, ?_⟩
  have hcount := congrArg (fun v => v.toNat % 32) hs
  simp at hcount
  simp [hcx.symm, FpInstr.shiftCount, hcount]
  cases negative with
  | false => rfl
  | true => rfl

theorem nanBit (quiet : Bool) :
    low 16 sigNan (sigNan.setWidth 16 <<< (quiet.toNat % 32)) =
      1#64 <<< if quiet then 9 else 8 := by
  cases quiet with
  | false => rfl
  | true => rfl

theorem classNaN_runs {t : BitVec form.width} (hcx : Q ≠ .cx)
    (ht : form.get (h.reg .dx) = t) :
    ∃ h', runFrom (FpInstr.step u) 0 (classNaN Q form) h = some h' ∧
      h'.reg Q = 1#64 <<< if t.msb then 9 else 8 := by
  subst ht
  cases form with
  | s =>
      refine ⟨_, rfl, ?_⟩
      simp [hcx, FpInstr.shiftCount]
      exact nanBit _
  | d =>
      refine ⟨_, rfl, ?_⟩
      simp [hcx, FpInstr.shiftCount]
      exact nanBit _

/-! ## The branches -/

/-- An infinity or a NaN. -/
theorem classOnes_runs {x : BitVec form.width} (hcx : Q ≠ .cx) (hc : Classifying form x h) :
    ∃ h', runFrom (FpInstr.step u) 0 (classOnes Q form) h = some h' ∧
      h'.reg Q = 1#64 <<<
        if x <<< (form.width - form.format.fracBits) = BitVec.ofNat form.width 0 then
          if x.msb then 0 else 7
        else if (x <<< (form.width - form.format.fracBits)).msb then 9 else 8 := by
  obtain ⟨h₁, hrun₁, hx₁, hs₁⟩ := classSign_runs (u := u) hc
  obtain ⟨h₂, hrun₂, hx₂, hs₂, hflag⟩ := classFraction_runs (u := u) hx₁ hs₁
  unfold classOnes
  rw [runFrom_append _ hrun₁, runFrom_append _ hrun₂]
  by_cases hzero : x <<< (form.width - form.format.fracBits) = BitVec.ofNat form.width 0
  · rw [runFrom_untaken (by simp [hflag, hzero]), if_pos hzero]
    obtain ⟨h₃, hrun₃, hvalue⟩ := classDown_runs (u := u) posInfinity 7#8 0 7 hcx hs₂
      (by cases x.msb <;> rfl)
    refine ⟨h₃, ?_, hvalue⟩
    rw [runFrom_append _ hrun₃, runFrom_jump]
    exact runFrom_length _ _ _
  · rw [runFrom_taken (by simp [hflag, hzero]), if_neg hzero]
    exact classNaN_runs hcx hx₂

/-- A zero or a subnormal. -/
theorem classZeros_runs {x : BitVec form.width} (hcx : Q ≠ .cx) (hc : Classifying form x h) :
    ∃ h', runFrom (FpInstr.step u) 0 (classZeros Q form ++ classOnes Q form) h = some h' ∧
      h'.reg Q = 1#64 <<<
        if x <<< (form.width - form.format.fracBits) = BitVec.ofNat form.width 0 then
          if x.msb then 3 else 4
        else if x.msb then 2 else 5 := by
  obtain ⟨h₁, hrun₁, hx₁, hs₁⟩ := classSign_runs (u := u) hc
  obtain ⟨h₂, hrun₂, hx₂, hs₂, hflag⟩ := classFraction_runs (u := u) hx₁ hs₁
  unfold classZeros
  rw [List.append_assoc, List.append_assoc, runFrom_append _ hrun₁, runFrom_append _ hrun₂,
    List.cons_append]
  by_cases hzero : x <<< (form.width - form.format.fracBits) = BitVec.ofNat form.width 0
  · rw [runFrom_untaken (by simp [hflag, hzero]), if_pos hzero]
    obtain ⟨h₃, hrun₃, hvalue⟩ := classZero_runs (u := u) hcx hs₂
    refine ⟨h₃, ?_, hvalue⟩
    rw [List.append_assoc, runFrom_append _ hrun₃, List.cons_append, runFrom_jump]
    -- the end lies behind the other two branches
    have hlength : 5 + (classOnes Q form).length = (classDown Q posSubnormal 3#8 ++
        [FpInstr.jump none (some (classOnes Q form).length)] ++ classOnes Q form).length := by
      simp [classDown]
      omega
    rw [hlength]
    exact runFrom_length _ _ _
  · rw [runFrom_taken (by simp [hflag, hzero]), if_neg hzero]
    obtain ⟨h₃, hrun₃, hvalue⟩ := classDown_runs (u := u) posSubnormal 3#8 2 5 hcx hs₂
      (by cases x.msb <;> rfl)
    refine ⟨h₃, ?_, hvalue⟩
    have hskip : ∀ rest, runFrom (FpInstr.step u) 3 (classZero Q ++ .jump none
        (some (5 + (classOnes Q form).length)) :: rest) h₂ = runFrom (FpInstr.step u) 0 rest h₂ :=
      fun rest => rfl
    rw [List.append_assoc, List.cons_append, hskip, List.append_assoc, runFrom_append _ hrun₃,
      List.cons_append, List.nil_append, runFrom_jump]
    exact runFrom_length _ _ _

/-- A normal number. -/
theorem classNormal_runs {x : BitVec form.width} (hcx : Q ≠ .cx) (hc : Classifying form x h) :
    ∃ h', runFrom (FpInstr.step u) 0
        (classNormal Q form ++ (classZeros Q form ++ classOnes Q form)) h = some h' ∧
      h'.reg Q = 1#64 <<< if x.msb then 1 else 6 := by
  obtain ⟨h₁, hrun₁, hx₁, hs₁⟩ := classSign_runs (u := u) hc
  obtain ⟨h₂, hrun₂, hvalue⟩ := classDown_runs (u := u) posNormal 5#8 1 6 hcx hs₁
    (by cases x.msb <;> rfl)
  refine ⟨h₂, ?_, hvalue⟩
  unfold classNormal
  rw [List.append_assoc, runFrom_append _ hrun₁, List.append_assoc, runFrom_append _ hrun₂,
    List.cons_append, List.nil_append, runFrom_jump]
  exact runFrom_length _ _ _

/-- The code leaves the bit of the class in the destination. -/
theorem classify_runs (form : FpForm) (hdx : Q ≠ .dx) (hcx : Q ≠ .cx) :
    ∃ h', runFrom (FpInstr.step u) 0 (classify Q p form).code h = some h' ∧
      h'.reg Q = 1#64 <<< fpClass form.format (h.scalar form p) := by
  obtain ⟨h₁, hrun₁, hc₁, he₁, hzero⟩ :=
    classPrologue_runs (u := u) (h := h) (p := p) form hdx hcx
  have hfrac : 0 < form.format.fracBits := by
    cases form with
    | s => decide
    | d => decide
  rw [classify_code, runFrom_append _ hrun₁, fpClass_fields form.format hfrac, exponentMask_eq]
  generalize h.scalar form p = x at hc₁ he₁ hzero
  -- no bit of the exponent is set: a zero or a subnormal number
  by_cases hexp : x &&& exponentMask form = BitVec.ofNat form.width 0
  · rw [runFrom_taken (by simp [hzero, hexp]), if_pos hexp]
    obtain ⟨h₂, hrun₂, hvalue⟩ := classZeros_runs (u := u) hcx hc₁
    refine ⟨h₂, ?_, hvalue⟩
    have hsplit : ∀ (i : FpInstr) (rest : List FpInstr), classCompare Q form ++
        i :: (classNormal Q form ++ rest) =
          (classCompare Q form ++ i :: classNormal Q form) ++ rest := by simp
    rw [hsplit, runFrom_skip]
    exact hrun₂
  · rw [runFrom_untaken (by simp [hzero, hexp]), if_neg hexp]
    obtain ⟨h₂, hrun₂, hc₂, hones⟩ := classCompare_runs (u := u) hc₁ he₁
    rw [runFrom_append _ hrun₂]
    -- all are set: an infinity or a NaN
    by_cases hmask : x &&& exponentMask form = exponentMask form
    · rw [runFrom_taken (by simp [hones, hmask]), if_pos hmask]
      obtain ⟨h₃, hrun₃, hvalue⟩ := classOnes_runs (u := u) hcx hc₂
      refine ⟨h₃, ?_, hvalue⟩
      rw [← List.append_assoc, runFrom_skip]
      exact hrun₃
    · rw [runFrom_untaken (by simp [hones, hmask]), if_neg hmask]
      exact classNormal_runs hcx hc₂

/-- The code works on the destination, `DX` and `CX`. -/
theorem classify_confined :
    Confined (fun R => R = Q ∨ R = .dx ∨ R = .cx) (fun _ => False) (classify Q p form).code := by
  rw [classify_code]
  cases form with
  | s =>
      simp [Confined, classPrologue, classNormal, classZeros, classOnes, classCompare, classSign,
        classFraction, classDown, classZero, classNaN, onRegisters, writesReg, writesXmm]
  | d =>
      simp [Confined, classPrologue, classNormal, classZeros, classOnes, classCompare, classSign,
        classFraction, classDown, classZero, classNaN, onRegisters, writesReg, writesXmm]

end Runs

/-! ## The instructions -/

/-- The instructions that classify. -/
def fpClassInstruction : RiscMnem → Option FpForm
  | .fclasss => some .s
  | .fclassd => some .d
  | _ => none

/-- The cases of `dispatch_instr` for these instructions. -/
def fpClassEmitter : RiscMnem → Option (Flags → FpMapping → RiscInstr → FpCode Unit)
  | .fclasss => some translateFCLASSS
  | .fclassd => some translateFCLASSD
  | _ => none

theorem fpClassEmitter_eq (mnem : RiscMnem) :
    fpClassEmitter mnem = (fpClassInstruction mnem).map translateFCLASS := by
  cases mnem <;> rfl

/-- `rd` receives the bit of the class of `rs1` and no other bit, and no other register of the
guest changes, wherever the registers lie. -/
theorem fpClass_faithful (u : FpUnit) (flags : Flags) (m : FpMapping) (instr : RiscInstr)
    (form : FpForm) (g : GuestState) (f : Nat → BitVec 64) (r : RegisterInfo) (h : FpState)
    (e : Bool) (a : Option Abort) (hinstr : fpClassInstruction instr.mnem = some form)
    (hrd : instr.regDest < 32) (hagrees : Agrees m x0 g f r h) :
    ∃ emitter, fpClassEmitter instr.mnem = some emitter ∧ ∃ r' h',
      FpRuns u (emitter flags m instr) ⟨⟨r, e⟩, a⟩ h () ⟨⟨r', e⟩, a⟩ h' ∧ Elsewhere h h' ∧
        Agrees m x0 (g.write instr.regDest
          (1#64 <<< fpClass form.format (form.get (f instr.regSrc1)))) f r' h' := by
  refine ⟨translateFCLASS form, by rw [fpClassEmitter_eq, hinstr]; rfl, ?_⟩
  obtain ⟨p, h₁, hrun₁, ha₁, he₁, hp, -, -⟩ :=
    getFpReg_agrees (u := u) flags hagrees instr.regSrc1 firstFpReg (.inl rfl) ⟨⟨r, e⟩, a⟩
  obtain ⟨Q, r₂, h₂, hrun₂, ha₂, he₂, hxmm₂, hloc, hhint⟩ :=
    getRdHinted_agrees (u := u) (e := e) (a := a) flags ha₁ hrd 0
  obtain ⟨h₃, hrun₃, ha₃, he₃, hxmm₃, -⟩ :=
    invalidateReplacement_agrees (u := u) (e := e) (a := a) ha₂ 1
  obtain ⟨h₄, hrun₄, ha₄, he₄, hxmm₄, -⟩ :=
    invalidateReplacement_agrees (u := u) (e := e) (a := a) ha₃ 2
  have hdx : Q ≠ .dx := fun hQ => absurd (hhint 1 hQ) (by decide)
  have hcx : Q ≠ .cx := fun hQ => absurd (hhint 2 hQ) (by decide)
  -- the destination is not among the registers that were emptied
  have hloc₄ : Located ((r₂.note 1 invalidReg 0).note 2 invalidReg 0) Q instr.regDest := by
    rcases hloc with hmap | ⟨hmap, i, rfl, hi⟩
    · exact .inl hmap
    · obtain rfl := hhint i rfl
      exact .inr ⟨hmap, 0, rfl, hi⟩
  obtain ⟨h₅, hcode, hvalue⟩ :=
    classify_runs (u := u) (h := h₄) (p := p) form hdx hcx
  have htouches := runFrom_touches classify_confined hcode
  have ha₅ := ha₄.deliver hloc₄ hrd htouches
    (fun i hi => by
      rcases hi with hQ | hi | hi
      · exact .inr (hloc₄.held i hQ)
      · obtain rfl : i = 1 := getRegForIndex_injective hi
        exact .inl rfl
      · obtain rfl : i = 2 := getRegForIndex_injective hi
        exact .inl rfl)
    (fun y mapped hmap hR => by
      rcases hR with rfl | hR | hR
      · exact hloc₄.mapped hmap
      · exact absurd hR (gpMap_ne_replacement hmap 1)
      · exact absurd hR (gpMap_ne_replacement hmap 2))
    fun _ hX => hX.elim
  refine ⟨_, h₅, .bind hrun₁ (.bind hrun₂ (.bind hrun₃ (.bind hrun₄ (runs_emitCode _ hcode)))),
    he₁.trans (he₂.trans (he₃.trans (he₄.trans (htouches.elsewhere ?_)))), ?_⟩
  · rintro (hsp | hsp | hsp)
    · exact hloc.ne_sp hsp.symm
    · exact absurd hsp (by decide)
    · exact absurd hsp (by decide)
  · rw [hvalue] at ha₅
    unfold FpState.scalar at ha₅
    rwa [hxmm₄, hxmm₃, hxmm₂, hp] at ha₅

/-- A quiet NaN. -/
theorem fpClass_faithful_fclassd :
    ∃ emitter, fpClassEmitter .fclassd = some emitter ∧ ∃ r' h',
      FpRuns sampleUnit (emitter {} .static (fpInstr .fclassd 5 1 0)) .start
        (filledFp 0x7ff8000000000000#64) () ⟨⟨r', false⟩, none⟩ h' ∧
      Elsewhere (filledFp 0x7ff8000000000000#64) h' ∧
        Agrees .static x0 ((filledGuest 0x7ff8000000000000#64).write 5
          (1#64 <<< fpClass (FpForm.format .d) 0x7ff8000000000000#64))
          (fun _ => 0x7ff8000000000000#64) r' h' :=
  fpClass_faithful sampleUnit {} .static (fpInstr .fclassd 5 1 0) .d
    (filledGuest 0x7ff8000000000000#64) (fun _ => 0x7ff8000000000000#64)
    FpGenState.start.gen.rInfo (filledFp 0x7ff8000000000000#64) false none rfl (by decide)
    (filled_agrees .static 0x7ff8000000000000#64)

end RiaJit.Translate
