import RiaJit.Gen.FpCode
import RiaJit.Guest.Rv64fd

/-!
# Comparisons

The emitters of `translate_f_ext.c` and `translate_d_ext.c` for `FEQ`, `FLT` and `FLE`. They read
one or two of the flags that `COMISS` sets, in one order of the operands or the other.
-/

set_option autoImplicit false

namespace RiaJit.Translate

open EmitLogic ForwardJumps X86

/-! ## Comparisons -/

section Emitters

variable (form : FpForm) (flags : Flags) (m : FpMapping) (instr : RiscInstr)

/-- What `FEQ` emits for either width. -/
def translateFEQ : FpCode Unit := do
  let regSrc1 ← getFpReg flags m instr.regSrc1 firstFpReg
  let regSrc2 ← getFpReg flags m instr.regSrc2 secondFpReg
  let regDest ← getRd flags instr
  let scratch ← invalidateOldest
  Gen.emit (.sse (.gp (.alurr .xor .s32 regDest regDest)))
  Gen.emit (.comisrr false form regSrc1 regSrc2)
  Gen.emit (.sse (.gp (.mov64ri scratch 0#64)))
  Gen.emit (.set8r .np regDest)
  Gen.emit (.cmovnz64rr regDest scratch)

/-- What `FLT` and `FLE` have in common: `rs2` is compared with `rs1`. -/
def translateReversed (cond : FpCond) : FpCode Unit := do
  let regSrc1 ← getFpReg flags m instr.regSrc1 firstFpReg
  let regSrc2 ← getFpReg flags m instr.regSrc2 secondFpReg
  let regDest ← getRd flags instr
  Gen.emit (.sse (.gp (.alurr .xor .s32 regDest regDest)))
  Gen.emit (.comisrr false form regSrc2 regSrc1)
  Gen.emit (.set8r cond regDest)

/-- What `FLT` emits for either width. -/
def translateFLT : FpCode Unit := translateReversed form flags m instr .a

/-- What `FLE` emits for either width. -/
def translateFLE : FpCode Unit := translateReversed form flags m instr .nc

end Emitters

/-- `translate_FEQS`: whether two singles are equal. -/
def translateFEQS := translateFEQ .s

/-- `translate_FLTS`: whether the first single is less. -/
def translateFLTS := translateFLT .s

/-- `translate_FLES`: whether the first single is at most the second. -/
def translateFLES := translateFLE .s

/-- `translate_FEQD`: whether two doubles are equal. -/
def translateFEQD := translateFEQ .d

/-- `translate_FLTD`: whether the first double is less. -/
def translateFLTD := translateFLT .d

/-- `translate_FLED`: whether the first double is at most the second. -/
def translateFLED := translateFLE .d

/-- The emitter for each relation. -/
def relationEmitter : FpRelation → FpForm → Flags → FpMapping → RiscInstr → FpCode Unit
  | .eq => translateFEQ
  | .lt => translateFLT
  | .le => translateFLE

section Cores

variable {u : FpUnit} {form : FpForm} {h : FpState} {Q S : FeReg} {p q : XmmReg}

/-- A flag in the low byte of a register that was zero. -/
theorem low_bool (b : Bool) : low 8 0#64 ((BitVec.ofBool b).setWidth 8) = boolValue b := by
  cases b with
  | false => rfl
  | true => rfl

/-- The code of `FEQ` behind the loads. -/
def feqCode (form : FpForm) (p q : XmmReg) (Q S : FeReg) : List FpInstr :=
  [.sse (.gp (.alurr .xor .s32 Q Q)), .comisrr false form p q, .sse (.gp (.mov64ri S 0#64)),
    .set8r .np Q, .cmovnz64rr Q S]

/-- The code of `FLT` and `FLE` behind the loads. -/
def reversedCode (form : FpForm) (cond : FpCond) (p q : XmmReg) (Q : FeReg) : List FpInstr :=
  [.sse (.gp (.alurr .xor .s32 Q Q)), .comisrr false form q p, .set8r cond Q]

theorem feqCode_runs (u : FpUnit) (form : FpForm) (h : FpState) (p q : XmmReg) (hne : Q ≠ S) :
    ∃ h', runFrom (FpInstr.step u) 0 (feqCode form p q Q S) h = some h' ∧
      h'.reg Q = boolValue (form.format.eq (h.scalar form p) (h.scalar form q)) := by
  refine ⟨_, rfl, ?_⟩
  simp only [FpState.scalar]
  generalize hx : form.get (h.xmm p) = x
  generalize hy : form.get (h.xmm q) = y
  simp only [FpState.xmm] at hx hy
  cases hun : form.format.unordered x y with
  | true =>
      -- the parity flag is set, and with it the zero flag
      have hnone := Ieee.eq_of_unordered form.format hun
      simp [hx, hy, hun, hnone, hne]
      rfl
  | false =>
      cases heq : form.format.eq x y with
      | true =>
          simp [hx, hy, hun, heq, hne]
          rfl
      | false =>
          simp [hx, hy, hun, heq, hne, hne.symm]
          rfl

theorem fltCode_runs :
    ∃ h', runFrom (FpInstr.step u) 0 (reversedCode form .a p q Q) h = some h' ∧
      h'.reg Q = boolValue (form.format.lt (h.scalar form p) (h.scalar form q)) := by
  refine ⟨_, rfl, ?_⟩
  have hflags := Ieee.not_lt_and_not_eq form.format (h.scalar form p) (h.scalar form q)
  rw [← hflags, ← low_bool]
  simp

theorem fleCode_runs :
    ∃ h', runFrom (FpInstr.step u) 0 (reversedCode form .nc p q Q) h = some h' ∧
      h'.reg Q = boolValue (form.format.le (h.scalar form p) (h.scalar form q)) := by
  refine ⟨_, rfl, ?_⟩
  have hflags := Ieee.not_lt form.format (h.scalar form p) (h.scalar form q)
  rw [← hflags, ← low_bool]
  simp

end Cores

section Comparisons

variable {u : FpUnit} {form : FpForm} {m : FpMapping} {instr : RiscInstr} {g : GuestState}
  {f : Nat → BitVec 64} {r : RegisterInfo} {h : FpState} {e : Bool} {a : Option Abort}
  (flags : Flags)

/-- The code writes a truth value to `rd` and changes nothing else. -/
def Decides (u : FpUnit) (m : FpMapping) (instr : RiscInstr) (g : GuestState)
    (f : Nat → BitVec 64) (r : RegisterInfo) (h : FpState) (e : Bool) (a : Option Abort)
    (emitter : FpCode Unit) (b : Bool) : Prop :=
  ∃ r' h', FpRuns u emitter ⟨⟨r, e⟩, a⟩ h () ⟨⟨r', e⟩, a⟩ h' ∧
    Agrees m x0 (g.write instr.regDest (boolValue b)) f r' h' ∧ Elsewhere h h'

/-- Where `rd` lies may be overwritten: nothing else lies there. -/
theorem Located.held {d : Nat} {Q : FeReg} (hloc : Located r Q d) (i : Fin 3)
    (hQ : getRegForIndex i = Q) : r.replacementContent i = d := by
  rcases hloc with hmap | ⟨-, j, rfl, hj⟩
  · exact absurd hQ.symm (gpMap_ne_replacement hmap i)
  · rw [getRegForIndex_injective hQ]
    exact hj

theorem Located.mapped {d : Nat} {Q : FeReg} (hloc : Located r Q d) {y : Nat}
    (hy : gpMap y = some Q) : y = d := by
  rcases hloc with hmap | ⟨-, j, rfl, -⟩
  · exact gpMap_injective hy hmap
  · exact absurd rfl (gpMap_ne_replacement hy j)

theorem feq_decides (ha : Agrees m x0 g f r h) (hd : instr.regDest < 32) :
    Decides u m instr g f r h e a (translateFEQ form flags m instr)
      (form.format.eq (form.get (f instr.regSrc1)) (form.get (f instr.regSrc2))) := by
  obtain ⟨p, q, h₁, h₂, hrun₁, hrun₂, ha₂, he₂, hp, hq, -, -⟩ :=
    fetchPair_agrees (u := u) flags ha instr.regSrc1 instr.regSrc2 ⟨⟨r, e⟩, a⟩
  obtain ⟨Q, r₃, h₃, hrun₃, ha₃, he₃, hxmm₃, hloc, hpinned⟩ :=
    getRd_agrees (u := u) (e := e) (a := a) flags ha₂ hd
  obtain ⟨r₄, h₄, hrun₄, ha₄, he₄, hxmm₄, hscratch, hothers, -⟩ :=
    invalidateOldest_agrees (u := u) (e := e) (a := a) ha₃
  -- `rd` was requested last, so the scratch register is another one
  have hne : Q ≠ getRegForIndex r₃.oldest :=
    (hpinned.mono (Nat.zero_le 1)).ne_oldest ha₃.rep.wf hd
  have hloc₄ : Located r₄ Q instr.regDest := by
    rcases hloc with hmap | ⟨hmap, i, rfl, hi⟩
    · exact .inl hmap
    · refine .inr ⟨hmap, i, rfl, ?_⟩
      rw [hothers i fun heq => hne (by rw [heq]), hi]
  obtain ⟨h₅, hcode, hvalue⟩ := feqCode_runs u form h₄ p q hne
  have htouches : Touches (fun R => R = Q ∨ R = getRegForIndex r₃.oldest) (fun _ => False) h₄ h₅ :=
    runFrom_touches (by simp [feqCode, confined_cons, confined_nil, onRegisters, writesReg,
      writesXmm]) hcode
  have ha₅ := ha₄.deliver hloc₄ hd htouches
    (fun i hi => hi.elim (fun hQ => .inr (hloc₄.held i hQ))
      fun hS => .inl (by rw [getRegForIndex_injective hS, hscratch]))
    (fun y mapped hmap hR => hR.elim (fun hQ => hloc₄.mapped (by rwa [← hQ]))
      fun hS => absurd hS (gpMap_ne_replacement hmap _))
    fun _ hX => hX.elim
  refine ⟨r₄, h₅, .bind hrun₁ (.bind hrun₂ (.bind hrun₃ (.bind hrun₄ ⟨_, rfl, hcode⟩))), ?_,
    he₂.trans (he₃.trans (he₄.trans (htouches.elsewhere ?_)))⟩
  · rw [hvalue] at ha₅
    unfold FpState.scalar at ha₅
    rwa [hxmm₄, hxmm₄, hxmm₃, hxmm₃, hp, hq] at ha₅
  · rintro (hsp | hsp)
    · exact hloc.ne_sp hsp.symm
    · exact getRegForIndex_ne_sp _ hsp.symm

/-- `FLT` and `FLE`, given what their code leaves in `rd`. -/
theorem reversed_decides {cond : FpCond} {b : BitVec form.width → BitVec form.width → Bool}
    (hcode : ∀ h p q Q, ∃ h',
      runFrom (FpInstr.step u) 0 (reversedCode form cond p q Q) h = some h' ∧
      h'.reg Q = boolValue (b (h.scalar form p) (h.scalar form q)))
    (ha : Agrees m x0 g f r h) (hd : instr.regDest < 32) :
    Decides u m instr g f r h e a (translateReversed form flags m instr cond)
      (b (form.get (f instr.regSrc1)) (form.get (f instr.regSrc2))) := by
  obtain ⟨p, q, h₁, h₂, hrun₁, hrun₂, ha₂, he₂, hp, hq, -, -⟩ :=
    fetchPair_agrees (u := u) flags ha instr.regSrc1 instr.regSrc2 ⟨⟨r, e⟩, a⟩
  obtain ⟨Q, r₃, h₃, hrun₃, ha₃, he₃, hxmm₃, hloc, -⟩ :=
    getRd_agrees (u := u) (e := e) (a := a) flags ha₂ hd
  obtain ⟨h₄, hrun, hvalue⟩ := hcode h₃ p q Q
  have htouches : Touches (fun R => R = Q) (fun _ => False) h₃ h₄ :=
    runFrom_touches (by simp [reversedCode, confined_cons, confined_nil, onRegisters, writesReg,
      writesXmm]) hrun
  have ha₄ := ha₃.deliver hloc hd htouches (fun i hi => .inr (hloc.held i hi))
    (fun y mapped hmap hR => hloc.mapped (by rwa [← hR])) fun _ hX => hX.elim
  refine ⟨r₃, h₄, .bind hrun₁ (.bind hrun₂ (.bind hrun₃ ⟨_, rfl, hrun⟩)), ?_,
    he₂.trans (he₃.trans (htouches.elsewhere fun hsp => hloc.ne_sp hsp.symm))⟩
  rw [hvalue] at ha₄
  unfold FpState.scalar at ha₄
  rwa [hxmm₃, hxmm₃, hp, hq] at ha₄

theorem relation_decides (rel : FpRelation) (ha : Agrees m x0 g f r h)
    (hd : instr.regDest < 32) :
    Decides u m instr g f r h e a (relationEmitter rel form flags m instr)
      (rel.holds form.format (form.get (f instr.regSrc1)) (form.get (f instr.regSrc2))) := by
  cases rel with
  | eq => exact feq_decides flags ha hd
  | lt => exact reversed_decides flags (fun _ _ _ _ => fltCode_runs) ha hd
  | le => exact reversed_decides flags (fun _ _ _ _ => fleCode_runs) ha hd

end Comparisons

end RiaJit.Translate
