import RiaJit.Gen.FpCompare

/-!
# Sign injection

The emitters of `translate_f_ext.c` and `translate_d_ext.c` for the three forms of `FSGNJ`. The
operands go through integer registers that are emptied for them, where the sign is put together
under masks.
-/

set_option autoImplicit false

namespace RiaJit.Translate

open EmitLogic ForwardJumps X86

/-! ## Emitters -/

section Emitters

variable (flags : Flags) (m : FpMapping) (instr : RiscInstr)

/-- `translate_FSGNJS`. -/
def translateFSGNJS : FpCode Unit := do
  let regDest ← getFpRegNoLoad flags m instr.regDest firstFpReg
  let regSrc1 ← getFpReg flags m instr.regSrc1 firstFpReg
  (if instr.regSrc1 = instr.regSrc2 then
    codeIf (regSrc1 ≠ regDest) (Gen.emit (.sse (.movrr .s regDest regSrc1)))
  else do
    let regSrc2 ← getFpReg flags m instr.regSrc2 secondFpReg
    invalidateReplacement 0
    invalidateReplacement 1
    Gen.emit (.movToReg .s .ax regSrc1)
    Gen.emit (.movToReg .s .dx regSrc2)
    Gen.emit (.and32ri .ax 0x7fffffff#32)
    Gen.emit (.and32ri .dx 0x80000000#32)
    Gen.emit (.sse (.gp (.alurr .or .s32 .ax .dx)))
    Gen.emit (.movToXmm .s regDest .ax))
  setFpReg flags m instr.regDest regDest

/-- `translate_FSGNJNS`. -/
def translateFSGNJNS : FpCode Unit := do
  let regDest ← getFpRegNoLoad flags m instr.regDest firstFpReg
  let regSrc1 ← getFpReg flags m instr.regSrc1 firstFpReg
  let regSrc2 ← getFpReg flags m instr.regSrc2 secondFpReg
  invalidateReplacement 0
  invalidateReplacement 1
  Gen.emit (.movToReg .s .ax regSrc1)
  Gen.emit (.movToReg .s .dx regSrc2)
  Gen.emit (.and32ri .ax 0x7fffffff#32)
  Gen.emit (.not32r .dx)
  Gen.emit (.and32ri .dx 0x80000000#32)
  Gen.emit (.sse (.gp (.alurr .or .s32 .ax .dx)))
  Gen.emit (.movToXmm .s regDest .ax)
  setFpReg flags m instr.regDest regDest

/-- `translate_FSGNJXS`. -/
def translateFSGNJXS : FpCode Unit := do
  let regDest ← getFpRegNoLoad flags m instr.regDest firstFpReg
  let regSrc1 ← getFpReg flags m instr.regSrc1 firstFpReg
  let regSrc2 ← getFpReg flags m instr.regSrc2 secondFpReg
  invalidateReplacement 0
  invalidateReplacement 1
  Gen.emit (.movToReg .s .ax regSrc1)
  Gen.emit (.movToReg .s .dx regSrc2)
  Gen.emit (.sse (.gp (.alurr .xor .s32 .dx .ax)))
  -- the magnitude of `rs1` and the sign of the exclusive or
  Gen.emit (.and32ri .ax 0x7fffffff#32)
  Gen.emit (.and32ri .dx 0x80000000#32)
  Gen.emit (.sse (.gp (.alurr .or .s32 .ax .dx)))
  Gen.emit (.movToXmm .s regDest .ax)
  setFpReg flags m instr.regDest regDest

/-- `translate_FSGNJD`. -/
def translateFSGNJD : FpCode Unit := do
  let regDest ← getFpRegNoLoad flags m instr.regDest firstFpReg
  let regSrc1 ← getFpReg flags m instr.regSrc1 firstFpReg
  (if instr.regSrc1 = instr.regSrc2 then
    codeIf (regSrc1 ≠ regDest) (Gen.emit (.sse (.movrr .d regDest regSrc1)))
  else do
    invalidateReplacement 0
    invalidateReplacement 1
    invalidateReplacement 2
    let regSrc2 ← getFpReg flags m instr.regSrc2 secondFpReg
    Gen.emit (.movToReg .d .ax regSrc1)
    Gen.emit (.movToReg .d .cx regSrc2)
    Gen.emit (.sse (.gp (.mov64ri .dx 1#64)))
    Gen.emit (.ror64ri .dx 1)
    Gen.emit (.and64rr .cx .dx)
    Gen.emit (.btr64ri .ax 63)
    Gen.emit (.sse (.gp (.alurr .or .s64 .ax .cx)))
    Gen.emit (.movToXmm .d regDest .ax))
  setFpReg flags m instr.regDest regDest

/-- `translate_FSGNJND`. -/
def translateFSGNJND : FpCode Unit := do
  let regDest ← getFpRegNoLoad flags m instr.regDest firstFpReg
  let regSrc1 ← getFpReg flags m instr.regSrc1 firstFpReg
  let regSrc2 ← getFpReg flags m instr.regSrc2 secondFpReg
  invalidateReplacement 0
  invalidateReplacement 1
  invalidateReplacement 2
  Gen.emit (.movToReg .d .ax regSrc1)
  Gen.emit (.movToReg .d .cx regSrc2)
  Gen.emit (.sse (.gp (.mov64ri .dx 1#64)))
  Gen.emit (.ror64ri .dx 1)
  -- the magnitude of `rs1` and the complement of the sign of `rs2`
  Gen.emit (.btr64ri .ax 63)
  Gen.emit (.sse (.gp (.not64r .cx)))
  Gen.emit (.and64rr .cx .dx)
  Gen.emit (.sse (.gp (.alurr .or .s64 .ax .cx)))
  Gen.emit (.movToXmm .d regDest .ax)
  setFpReg flags m instr.regDest regDest

/-- `translate_FSGNJXD`. -/
def translateFSGNJXD : FpCode Unit := do
  let regDest ← getFpRegNoLoad flags m instr.regDest firstFpReg
  let regSrc1 ← getFpReg flags m instr.regSrc1 firstFpReg
  let regSrc2 ← getFpReg flags m instr.regSrc2 secondFpReg
  invalidateReplacement 0
  invalidateReplacement 1
  invalidateReplacement 2
  Gen.emit (.movToReg .d .ax regSrc1)
  Gen.emit (.movToReg .d .cx regSrc2)
  Gen.emit (.sse (.gp (.mov64ri .dx 1#64)))
  Gen.emit (.ror64ri .dx 1)
  Gen.emit (.sse (.gp (.alurr .xor .s64 .cx .ax)))
  -- the magnitude of `rs1` and the sign of the exclusive or
  Gen.emit (.btr64ri .ax 63)
  Gen.emit (.and64rr .cx .dx)
  Gen.emit (.sse (.gp (.alurr .or .s64 .ax .cx)))
  Gen.emit (.movToXmm .d regDest .ax)
  setFpReg flags m instr.regDest regDest

end Emitters

/-- The emitter for each injection. -/
def injectionEmitter : SignRule → FpForm → Flags → FpMapping → RiscInstr → FpCode Unit
  | .j, .s => translateFSGNJS
  | .jn, .s => translateFSGNJNS
  | .jx, .s => translateFSGNJXS
  | .j, .d => translateFSGNJD
  | .jn, .d => translateFSGNJND
  | .jx, .d => translateFSGNJXD

/-- The code between the loads of an injection and its result. -/
def injectionCode (p q d : XmmReg) : SignRule → FpForm → List FpInstr
  | .j, .s => [.movToReg .s .ax p, .movToReg .s .dx q, .and32ri .ax 0x7fffffff#32,
      .and32ri .dx 0x80000000#32, .sse (.gp (.alurr .or .s32 .ax .dx)), .movToXmm .s d .ax]
  | .jn, .s => [.movToReg .s .ax p, .movToReg .s .dx q, .and32ri .ax 0x7fffffff#32,
      .not32r .dx, .and32ri .dx 0x80000000#32, .sse (.gp (.alurr .or .s32 .ax .dx)),
      .movToXmm .s d .ax]
  | .jx, .s => [.movToReg .s .ax p, .movToReg .s .dx q, .sse (.gp (.alurr .xor .s32 .dx .ax)),
      .and32ri .ax 0x7fffffff#32, .and32ri .dx 0x80000000#32,
      .sse (.gp (.alurr .or .s32 .ax .dx)), .movToXmm .s d .ax]
  | .j, .d => [.movToReg .d .ax p, .movToReg .d .cx q, .sse (.gp (.mov64ri .dx 1#64)),
      .ror64ri .dx 1, .and64rr .cx .dx, .btr64ri .ax 63, .sse (.gp (.alurr .or .s64 .ax .cx)),
      .movToXmm .d d .ax]
  | .jn, .d => [.movToReg .d .ax p, .movToReg .d .cx q, .sse (.gp (.mov64ri .dx 1#64)),
      .ror64ri .dx 1, .btr64ri .ax 63, .sse (.gp (.not64r .cx)), .and64rr .cx .dx,
      .sse (.gp (.alurr .or .s64 .ax .cx)), .movToXmm .d d .ax]
  | .jx, .d => [.movToReg .d .ax p, .movToReg .d .cx q, .sse (.gp (.mov64ri .dx 1#64)),
      .ror64ri .dx 1, .sse (.gp (.alurr .xor .s64 .cx .ax)), .btr64ri .ax 63, .and64rr .cx .dx,
      .sse (.gp (.alurr .or .s64 .ax .cx)), .movToXmm .d d .ax]

/-- The integer registers that an injection uses. -/
def injectionScratch : FpForm → List (Fin 3)
  | .s => [0, 1]
  | .d => [0, 1, 2]

section InjectionCode

variable {u : FpUnit} {h : FpState} {p q d : XmmReg}

/-- The code for singles combines the sign and the magnitude by masks. -/
theorem injectionCode_single (rule : SignRule) :
    ∃ h', runFrom (FpInstr.step u) 0 (injectionCode p q d rule .s) h = some h' ∧
      h'.xmm d = (rule.inject ((h.xmm p).setWidth 32) ((h.xmm q).setWidth 32)).setWidth 64 := by
  have hmask : ~~~BitVec.intMin 32 = 0x7fffffff#32 := rfl
  have hsign : BitVec.intMin 32 = 0x80000000#32 := rfl
  -- the masks stand in the claim before the code runs
  rw [rule.inject_eq (w := 32) (by decide), hmask, hsign]
  cases rule with
  | j =>
      refine ⟨_, rfl, ?_⟩
      simp [-BitVec.setWidth_and, -BitVec.setWidth_or, sized, AluOp.eval]
      simp [-BitVec.setWidth_and, -BitVec.setWidth_or, SignRule.word]
  | jn =>
      refine ⟨_, rfl, ?_⟩
      simp [-BitVec.setWidth_and, -BitVec.setWidth_or, sized, AluOp.eval]
      simp [-BitVec.setWidth_and, -BitVec.setWidth_or, SignRule.word]
  | jx =>
      refine ⟨_, rfl, ?_⟩
      simp [-BitVec.setWidth_and, -BitVec.setWidth_or, -sized_xor_self, sized, AluOp.eval]
      simp [-BitVec.setWidth_and, -BitVec.setWidth_or, SignRule.word]

/-- The code for doubles does so for the whole register. -/
theorem injectionCode_double (rule : SignRule) :
    ∃ h', runFrom (FpInstr.step u) 0 (injectionCode p q d rule .d) h = some h' ∧
      h'.xmm d = rule.inject (h.xmm p) (h.xmm q) := by
  have hmask : ~~~BitVec.intMin 64 = ~~~(1#64 <<< 63) := rfl
  have hsign : BitVec.intMin 64 = (1#64).rotateRight 1 := rfl
  rw [rule.inject_eq (w := 64) (by decide), hmask, hsign]
  cases rule with
  | j =>
      refine ⟨_, rfl, ?_⟩
      simp [-BitVec.reduceRotateRight, sized, AluOp.eval]
      simp [SignRule.word]
  | jn =>
      refine ⟨_, rfl, ?_⟩
      simp [-BitVec.reduceRotateRight, sized, AluOp.eval]
      simp [SignRule.word]
  | jx =>
      refine ⟨_, rfl, ?_⟩
      simp [-BitVec.reduceRotateRight, -sized_xor_self, sized, AluOp.eval]
      simp [SignRule.word]

/-- Either way the result has the sign that the rule prescribes. -/
theorem injectionCode_runs (rule : SignRule) (form : FpForm) :
    ∃ h', runFrom (FpInstr.step u) 0 (injectionCode p q d rule form) h = some h' ∧
      form.get (h'.xmm d) = rule.inject (form.get (h.xmm p)) (form.get (h.xmm q)) := by
  cases form with
  | s =>
      obtain ⟨h', hrun, hvalue⟩ :=
        injectionCode_single (u := u) (h := h) (p := p) (q := q) (d := d) rule
      refine ⟨h', hrun, ?_⟩
      rw [hvalue]
      exact BitVec.setWidth_setWidth_of_le _ (by decide)
  | d =>
      obtain ⟨h', hrun, hvalue⟩ :=
        injectionCode_double (u := u) (h := h) (p := p) (q := q) (d := d) rule
      refine ⟨h', hrun, ?_⟩
      rw [hvalue, get_double, get_double, get_double]
      rfl

/-- The code works on the emptied registers and the destination. -/
theorem injectionCode_confined (rule : SignRule) (form : FpForm) :
    Confined (fun R => ∃ i ∈ injectionScratch form, R = getRegForIndex i) (fun X => X = d)
      (injectionCode p q d rule form) := by
  have hax : FeReg.ax = getRegForIndex 0 := rfl
  have hdx : FeReg.dx = getRegForIndex 1 := rfl
  have hcx : FeReg.cx = getRegForIndex 2 := rfl
  cases form with
  | s =>
      cases rule <;> simp [injectionCode, injectionScratch, confined_cons, confined_nil,
        onRegisters, writesReg, writesXmm, hax, hdx]
  | d =>
      cases rule <;> simp [injectionCode, injectionScratch, confined_cons, confined_nil,
        onRegisters, writesReg, writesXmm, hax, hdx, hcx]

end InjectionCode

section Injections

variable {u : FpUnit} {m : FpMapping} {instr : RiscInstr} {g : GuestState}
  {f : Nat → BitVec 64} {r : RegisterInfo} {h : FpState} {e : Bool} {a : Option Abort}
  (flags : Flags)

/-- The code behind the loads, on emptied registers. -/
theorem injectionCode_delivers {p q d : XmmReg} {x : Nat} {v w : BitVec 64} (rule : SignRule)
    (form : FpForm) (ha : Agrees m x0 g f r h) (hp : h.xmm p = v) (hq : h.xmm q = w)
    (ht : FpTarget m x firstFpReg d)
    (hempty : ∀ i ∈ injectionScratch form, r.replacementContent i = invalidReg)
    (s : FpGenState) :
    ∃ z h₁ h', FpRuns u (emitCode (injectionCode p q d rule form)) s h () s h₁ ∧
      FpRuns u (liftM (setFpReg flags m x d)) s h₁ () s h' ∧
      Agrees m x0 g (Function.update f x z) r h' ∧
      form.get z = rule.inject (form.get v) (form.get w) ∧ Elsewhere h h' := by
  obtain ⟨h₁, hrun, hvalue⟩ :=
    injectionCode_runs (u := u) (h := h) (p := p) (q := q) (d := d) rule form
  have htouches := runFrom_touches (injectionCode_confined rule form) hrun
  obtain ⟨h₂, hset, ha₂, he₂⟩ := ha.deliverFp (u := u) flags ht (.inl rfl) htouches
    (fun X hX => .inr (.inr hX))
    (fun i hi => by
      obtain ⟨j, hj, heq⟩ := hi
      rw [getRegForIndex_injective heq]
      exact hempty j hj)
    (fun y mapped hmap hR => by
      obtain ⟨j, -, heq⟩ := hR
      exact gpMap_ne_replacement hmap j heq) s
  refine ⟨_, h₁, h₂, runs_emitCode s hrun, hset, ha₂, ?_, (htouches.elsewhere ?_).trans he₂⟩
  · rw [hvalue, hp, hq]
  · rintro ⟨j, -, heq⟩
    exact getRegForIndex_ne_sp j heq.symm

/-! ## The emitters -/

/-- The injections of singles, both operands being loaded. -/
def injectSingle (flags : Flags) (m : FpMapping) (instr : RiscInstr) (rule : SignRule) :
    FpCode Unit := do
  let regDest ← getFpRegNoLoad flags m instr.regDest firstFpReg
  let regSrc1 ← getFpReg flags m instr.regSrc1 firstFpReg
  let regSrc2 ← getFpReg flags m instr.regSrc2 secondFpReg
  invalidateReplacement 0
  invalidateReplacement 1
  emitCode (injectionCode regSrc1 regSrc2 regDest rule .s)
  setFpReg flags m instr.regDest regDest

/-- The injections of doubles, where `translate_FSGNJD` empties the registers earlier. -/
def injectDouble (flags : Flags) (m : FpMapping) (instr : RiscInstr) (rule : SignRule) :
    FpCode Unit := do
  let regDest ← getFpRegNoLoad flags m instr.regDest firstFpReg
  let regSrc1 ← getFpReg flags m instr.regSrc1 firstFpReg
  let regSrc2 ← getFpReg flags m instr.regSrc2 secondFpReg
  invalidateReplacement 0
  invalidateReplacement 1
  invalidateReplacement 2
  emitCode (injectionCode regSrc1 regSrc2 regDest rule .d)
  setFpReg flags m instr.regDest regDest

/-- The code writes a number with another sign to `rd` and changes nothing else. -/
def Injects (u : FpUnit) (m : FpMapping) (instr : RiscInstr) (g : GuestState)
    (f : Nat → BitVec 64) (r : RegisterInfo) (h : FpState) (e : Bool) (a : Option Abort)
    (emitter : FpCode Unit) (rule : SignRule) (form : FpForm) : Prop :=
  ∃ v r' h', FpRuns u emitter ⟨⟨r, e⟩, a⟩ h () ⟨⟨r', e⟩, a⟩ h' ∧
    Agrees m x0 g (Function.update f instr.regDest v) r' h' ∧
    form.get v =
      rule.inject (form.get (f instr.regSrc1)) (form.get (f instr.regSrc2)) ∧
    Elsewhere h h'

/-- The registers after all three have been emptied. -/
def emptied (r : RegisterInfo) : RegisterInfo :=
  ((r.note 0 invalidReg 0).note 1 invalidReg 0).note 2 invalidReg 0

theorem emptied_content (r : RegisterInfo) (i : Fin 3) :
    (emptied r).replacementContent i = invalidReg := by
  unfold emptied
  match i with
  | 0 => rfl
  | 1 => rfl
  | 2 => rfl

/-- All three scratch registers are emptied. -/
theorem invalidateAll_agrees (ha : Agrees m x0 g f r h) :
    ∃ h', (∀ {k : FpCode Unit} {s : FpGenState} {h'' : FpState},
        FpRuns u k ⟨⟨emptied r, e⟩, a⟩ h' () s h'' → FpRuns u (do
          invalidateReplacement 0
          invalidateReplacement 1
          invalidateReplacement 2
          k) ⟨⟨r, e⟩, a⟩ h () s h'') ∧
      Agrees m x0 g f (emptied r) h' ∧ Elsewhere h h' ∧ ∀ p, h'.xmm p = h.xmm p := by
  obtain ⟨h₁, hrun₁, ha₁, he₁, hxmm₁, -⟩ :=
    invalidateReplacement_agrees (u := u) (e := e) (a := a) ha 0
  obtain ⟨h₂, hrun₂, ha₂, he₂, hxmm₂, -⟩ :=
    invalidateReplacement_agrees (u := u) (e := e) (a := a) ha₁ 1
  obtain ⟨h₃, hrun₃, ha₃, he₃, hxmm₃, -⟩ :=
    invalidateReplacement_agrees (u := u) (e := e) (a := a) ha₂ 2
  refine ⟨h₃, fun hk => .bind hrun₁ (.bind hrun₂ (.bind hrun₃ hk)), ha₃,
    he₁.trans (he₂.trans he₃), fun p => ?_⟩
  rw [hxmm₃, hxmm₂, hxmm₁]

/-- Single precision, wherever the operands lie. -/
theorem injectSingle_injects (ha : Agrees m x0 g f r h) (rule : SignRule) :
    Injects u m instr g f r h e a (injectSingle flags m instr rule) rule .s := by
  obtain ⟨h₁, hrun₁, ha₁, he₁, -⟩ :=
    getFpRegNoLoad_agrees (u := u) flags ha instr.regDest firstFpReg ⟨⟨r, e⟩, a⟩
  obtain ⟨p, q, h₂, h₃, hrun₂, hrun₃, ha₃, he₃, hp, hq, -, -⟩ :=
    fetchPair_agrees (u := u) flags ha₁ instr.regSrc1 instr.regSrc2 ⟨⟨r, e⟩, a⟩
  obtain ⟨h₄, hrun₄, ha₄, he₄, hxmm₄, -⟩ :=
    invalidateReplacement_agrees (u := u) (e := e) (a := a) ha₃ 0
  obtain ⟨h₅, hrun₅, ha₅, he₅, hxmm₅, -⟩ :=
    invalidateReplacement_agrees (u := u) (e := e) (a := a) ha₄ 1
  obtain ⟨v, h₆, h₇, hrun₆, hrun₇, ha₇, hvalue, he₇⟩ := injectionCode_delivers (u := u) flags
    rule .s ha₅ ((hxmm₅ p).trans ((hxmm₄ p).trans hp)) ((hxmm₅ q).trans ((hxmm₄ q).trans hq))
    (target_getD m instr.regDest firstFpReg) (by simp [injectionScratch]) ⟨⟨_, e⟩, a⟩
  exact ⟨v, _, h₇, .bind hrun₁ (.bind hrun₂ (.bind hrun₃ (.bind hrun₄ (.bind hrun₅
    (.bind hrun₆ hrun₇))))), ha₇, hvalue, he₁.trans (he₃.trans (he₄.trans (he₅.trans he₇)))⟩

theorem fsgnjs_injects (ha : Agrees m x0 g f r h) (hne : instr.regSrc1 ≠ instr.regSrc2) :
    Injects u m instr g f r h e a (translateFSGNJS flags m instr) .j .s := by
  obtain ⟨h₁, hrun₁, ha₁, he₁, -⟩ :=
    getFpRegNoLoad_agrees (u := u) flags ha instr.regDest firstFpReg ⟨⟨r, e⟩, a⟩
  obtain ⟨p, q, h₂, h₃, hrun₂, hrun₃, ha₃, he₃, hp, hq, -, -⟩ :=
    fetchPair_agrees (u := u) flags ha₁ instr.regSrc1 instr.regSrc2 ⟨⟨r, e⟩, a⟩
  obtain ⟨h₄, hrun₄, ha₄, he₄, hxmm₄, -⟩ :=
    invalidateReplacement_agrees (u := u) (e := e) (a := a) ha₃ 0
  obtain ⟨h₅, hrun₅, ha₅, he₅, hxmm₅, -⟩ :=
    invalidateReplacement_agrees (u := u) (e := e) (a := a) ha₄ 1
  obtain ⟨v, h₆, h₇, hrun₆, hrun₇, ha₇, hvalue, he₇⟩ := injectionCode_delivers (u := u) flags
    .j .s ha₅ ((hxmm₅ p).trans ((hxmm₄ p).trans hp)) ((hxmm₅ q).trans ((hxmm₄ q).trans hq))
    (target_getD m instr.regDest firstFpReg) (by simp [injectionScratch]) ⟨⟨_, e⟩, a⟩
  refine ⟨v, _, h₇, .bind hrun₁ (.bind hrun₂ (.bind (a := ()) ?_ hrun₇)), ha₇, hvalue,
    he₁.trans (he₃.trans (he₄.trans (he₅.trans he₇)))⟩
  rw [if_neg hne]
  exact .bind hrun₃ (.bind hrun₄ (.bind hrun₅ hrun₆))

/-- Double precision, wherever the operands lie. -/
theorem injectDouble_injects (ha : Agrees m x0 g f r h) (rule : SignRule) :
    Injects u m instr g f r h e a (injectDouble flags m instr rule) rule .d := by
  obtain ⟨h₁, hrun₁, ha₁, he₁, -⟩ :=
    getFpRegNoLoad_agrees (u := u) flags ha instr.regDest firstFpReg ⟨⟨r, e⟩, a⟩
  obtain ⟨p, q, h₂, h₃, hrun₂, hrun₃, ha₃, he₃, hp, hq, -, -⟩ :=
    fetchPair_agrees (u := u) flags ha₁ instr.regSrc1 instr.regSrc2 ⟨⟨r, e⟩, a⟩
  obtain ⟨h₄, hrun₄, ha₄, he₄, hxmm₄⟩ := invalidateAll_agrees (u := u) (e := e) (a := a) ha₃
  obtain ⟨v, h₅, h₆, hrun₅, hrun₆, ha₆, hvalue, he₆⟩ := injectionCode_delivers (u := u) flags
    rule .d ha₄ ((hxmm₄ p).trans hp) ((hxmm₄ q).trans hq)
    (target_getD m instr.regDest firstFpReg) (fun i _ => emptied_content r i) ⟨⟨_, e⟩, a⟩
  exact ⟨v, _, h₆, .bind hrun₁ (.bind hrun₂ (.bind hrun₃ (hrun₄ (.bind hrun₅ hrun₆)))), ha₆,
    hvalue, he₁.trans (he₃.trans (he₄.trans he₆))⟩

/-- `translate_FSGNJD` loads the second operand when the registers are already empty. -/
theorem fsgnjd_injects (ha : Agrees m x0 g f r h) (hne : instr.regSrc1 ≠ instr.regSrc2) :
    Injects u m instr g f r h e a (translateFSGNJD flags m instr) .j .d := by
  obtain ⟨h₁, hrun₁, ha₁, he₁, -⟩ :=
    getFpRegNoLoad_agrees (u := u) flags ha instr.regDest firstFpReg ⟨⟨r, e⟩, a⟩
  obtain ⟨p, h₂, hrun₂, ha₂, he₂, hp, hop, -⟩ :=
    getFpReg_agrees (u := u) flags ha₁ instr.regSrc1 firstFpReg (.inl rfl) ⟨⟨r, e⟩, a⟩
  obtain ⟨h₃, hrun₃, ha₃, he₃, hxmm₃⟩ := invalidateAll_agrees (u := u) (e := e) (a := a) ha₂
  obtain ⟨q, h₄, hrun₄, ha₄, he₄, hq, -, hxmm₄⟩ :=
    getFpReg_agrees (u := u) flags ha₃ instr.regSrc2 secondFpReg (.inr rfl) ⟨⟨_, e⟩, a⟩
  obtain ⟨v, h₅, h₆, hrun₅, hrun₆, ha₆, hvalue, he₆⟩ := injectionCode_delivers (u := u) flags
    .j .d ha₄ ((hxmm₄ p hop.ne_second).trans ((hxmm₃ p).trans hp)) hq
    (target_getD m instr.regDest firstFpReg) (fun i _ => emptied_content r i) ⟨⟨_, e⟩, a⟩
  refine ⟨v, _, h₆, .bind hrun₁ (.bind hrun₂ (.bind (a := ()) ?_ hrun₆)), ha₆, hvalue,
    he₁.trans (he₂.trans (he₃.trans (he₄.trans he₆)))⟩
  rw [if_neg hne]
  exact hrun₃ (.bind hrun₄ hrun₅)

/-- The sign of a number itself is injected: the number is moved, if it has to be. -/
def injectSelf (form : FpForm) (flags : Flags) (m : FpMapping) (instr : RiscInstr) :
    FpCode Unit := do
  let regDest ← getFpRegNoLoad flags m instr.regDest firstFpReg
  let regSrc1 ← getFpReg flags m instr.regSrc1 firstFpReg
  codeIf (regSrc1 ≠ regDest) (Gen.emit (.sse (.movrr form regDest regSrc1)))
  setFpReg flags m instr.regDest regDest

/-- A number with its own sign is itself. -/
theorem inject_self {w : Nat} (x : BitVec w) : SignRule.inject .j x x = x := Ieee.withSign_msb x

/-- With one operand the instruction is a move. -/
theorem injectSelf_injects (ha : Agrees m x0 g f r h) (hsame : instr.regSrc1 = instr.regSrc2)
    (form : FpForm) :
    Injects u m instr g f r h e a (injectSelf form flags m instr) .j form := by
  obtain ⟨h₁, hrun₁, ha₁, he₁, -⟩ :=
    getFpRegNoLoad_agrees (u := u) flags ha instr.regDest firstFpReg ⟨⟨r, e⟩, a⟩
  obtain ⟨p, h₂, hrun₂, ha₂, he₂, hp, -, -⟩ :=
    getFpReg_agrees (u := u) flags ha₁ instr.regSrc1 firstFpReg (.inl rfl) ⟨⟨r, e⟩, a⟩
  have ht := target_getD m instr.regDest firstFpReg
  obtain ⟨h₃, hrun₃, htouches, hvalue⟩ := codeIf_movrr_runs (u := u)
    (c := p ≠ (m.fpMap instr.regDest).getD firstFpReg) form ⟨⟨r, e⟩, a⟩ h₂ not_not.1
  obtain ⟨h₄, hset, ha₄, he₄⟩ := ha₂.deliverFp (u := u) flags ht (.inl rfl) htouches
    (fun X hX => .inr (.inr hX)) (fun _ hi => hi.elim) (fun _ _ _ hR => hR) ⟨⟨r, e⟩, a⟩
  refine ⟨_, r, h₄, .bind hrun₁ (.bind hrun₂ (.bind hrun₃ hset)), ha₄, ?_,
    he₁.trans (he₂.trans ((htouches.elsewhere id).trans he₄))⟩
  rw [hvalue, hp, ← hsame, inject_self]

/-- Every emitter injects the sign, with equal operands or different ones. -/
theorem injectionEmitter_injects (ha : Agrees m x0 g f r h) (rule : SignRule) (form : FpForm) :
    Injects u m instr g f r h e a (injectionEmitter rule form flags m instr) rule form := by
  cases rule with
  | j =>
      by_cases hsame : instr.regSrc1 = instr.regSrc2
      · have hself : injectionEmitter .j form flags m instr = injectSelf form flags m instr := by
          cases form with
          | s =>
              show translateFSGNJS flags m instr = _
              unfold translateFSGNJS
              simp only [if_pos hsame]
              rfl
          | d =>
              show translateFSGNJD flags m instr = _
              unfold translateFSGNJD
              simp only [if_pos hsame]
              rfl
        rw [hself]
        exact injectSelf_injects flags ha hsame form
      · cases form with
        | s => exact fsgnjs_injects flags ha hsame
        | d => exact fsgnjd_injects flags ha hsame
  | jn =>
      cases form with
      | s => exact injectSingle_injects flags ha .jn
      | d => exact injectDouble_injects flags ha .jn
  | jx =>
      cases form with
      | s => exact injectSingle_injects flags ha .jx
      | d => exact injectDouble_injects flags ha .jx

end Injections

/-! ## The instructions -/

/-- What an instruction does with the patterns of its operands. -/
inductive FpPatternOp where
  | relation (rel : FpRelation)
  | injection (rule : SignRule)
  deriving DecidableEq, Repr

/-- The instructions of this part. -/
def fpPatternInstruction : RiscMnem → Option (FpPatternOp × FpForm)
  | .feqs => some (.relation .eq, .s)
  | .flts => some (.relation .lt, .s)
  | .fles => some (.relation .le, .s)
  | .fsgnjs => some (.injection .j, .s)
  | .fsgnjns => some (.injection .jn, .s)
  | .fsgnjxs => some (.injection .jx, .s)
  | .feqd => some (.relation .eq, .d)
  | .fltd => some (.relation .lt, .d)
  | .fled => some (.relation .le, .d)
  | .fsgnjd => some (.injection .j, .d)
  | .fsgnjnd => some (.injection .jn, .d)
  | .fsgnjxd => some (.injection .jx, .d)
  | _ => none

/-- The cases of `dispatch_instr` for these instructions. -/
def fpPatternEmitter : RiscMnem → Option (Flags → FpMapping → RiscInstr → FpCode Unit)
  | .feqs => some translateFEQS
  | .flts => some translateFLTS
  | .fles => some translateFLES
  | .fsgnjs => some translateFSGNJS
  | .fsgnjns => some translateFSGNJNS
  | .fsgnjxs => some translateFSGNJXS
  | .feqd => some translateFEQD
  | .fltd => some translateFLTD
  | .fled => some translateFLED
  | .fsgnjd => some translateFSGNJD
  | .fsgnjnd => some translateFSGNJND
  | .fsgnjxd => some translateFSGNJXD
  | _ => none

/-- The emitter for each kind and width. -/
def patternEmitter : FpPatternOp → FpForm → Flags → FpMapping → RiscInstr → FpCode Unit
  | .relation rel => relationEmitter rel
  | .injection rule => injectionEmitter rule

/-- The table of emitters is that of the instructions. -/
theorem fpPatternEmitter_eq (mnem : RiscMnem) :
    fpPatternEmitter mnem = (fpPatternInstruction mnem).map fun p => patternEmitter p.1 p.2 := by
  cases mnem <;> rfl

/-- What the guest's registers are after an instruction. -/
def FpPatternOp.Gives (op : FpPatternOp) (form : FpForm) (instr : RiscInstr) (g : GuestState)
    (f : Nat → BitVec 64) (g' : GuestState) (f' : Nat → BitVec 64) : Prop :=
  let a := form.get (f instr.regSrc1)
  let b := form.get (f instr.regSrc2)
  match op with
  | .relation rel =>
      g' = g.write instr.regDest (boolValue (rel.holds form.format a b)) ∧ f' = f
  | .injection rule =>
      g' = g ∧ form.get (f' instr.regDest) = rule.inject a b ∧
        ∀ x, x ≠ instr.regDest → f' x = f x

/-- A comparison writes whether its relation holds, an injection the magnitude of `rs1` with the
sign that it prescribes; no other register of the guest changes, wherever the registers lie. -/
theorem fpPatterns_faithful (u : FpUnit) (flags : Flags) (m : FpMapping) (instr : RiscInstr)
    (op : FpPatternOp) (form : FpForm) (g : GuestState) (f : Nat → BitVec 64) (r : RegisterInfo)
    (h : FpState) (e : Bool) (a : Option Abort)
    (hinstr : fpPatternInstruction instr.mnem = some (op, form)) (hrd : instr.regDest < 32)
    (hagrees : Agrees m x0 g f r h) :
    ∃ emitter, fpPatternEmitter instr.mnem = some emitter ∧ ∃ g' f' r' h',
      FpRuns u (emitter flags m instr) ⟨⟨r, e⟩, a⟩ h () ⟨⟨r', e⟩, a⟩ h' ∧
        Agrees m x0 g' f' r' h' ∧ Elsewhere h h' ∧ op.Gives form instr g f g' f' := by
  refine ⟨patternEmitter op form, by rw [fpPatternEmitter_eq, hinstr]; rfl, ?_⟩
  cases op with
  | relation rel =>
      obtain ⟨r', h', hrun, hagrees', helse⟩ := relation_decides flags rel hagrees hrd
      exact ⟨_, f, r', h', hrun, hagrees', helse, rfl, rfl⟩
  | injection rule =>
      obtain ⟨v, r', h', hrun, hagrees', hvalue, helse⟩ :=
        injectionEmitter_injects flags hagrees rule form
      refine ⟨g, _, r', h', hrun, hagrees', helse, rfl, ?_, fun x hx => ?_⟩
      · rw [Function.update_self]
        exact hvalue
      · exact Function.update_of_ne hx _ _

/-- One and minus two are compared. -/
theorem fpPatterns_faithful_feqs :
    ∃ emitter, fpPatternEmitter .feqs = some emitter ∧ ∃ g' f' r' h',
      FpRuns sampleUnit (emitter {} .static (fpInstr .feqs 5 1 2)) .start (valuedFp 0#64 singles)
        () ⟨⟨r', false⟩, none⟩ h' ∧
      Agrees .static x0 g' f' r' h' ∧ Elsewhere (valuedFp 0#64 singles) h' ∧
        (FpPatternOp.relation .eq).Gives .s (fpInstr .feqs 5 1 2) (valuedGuest 0#64) singles
          g' f' :=
  fpPatterns_faithful sampleUnit {} .static (fpInstr .feqs 5 1 2) (.relation .eq) .s
    (valuedGuest 0#64) singles FpGenState.start.gen.rInfo (valuedFp 0#64 singles) false none rfl
    (by decide) (valued_agrees 0#64 singles)

end RiaJit.Translate
