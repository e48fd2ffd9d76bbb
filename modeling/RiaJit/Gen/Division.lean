import RiaJit.Gen.Assignment
import RiaJit.Gen.BlockSimulation
import RiaJit.Gen.CodeLength
import RiaJit.Gen.MulDiv

/-!
# Quotients and remainders

When the code of a division gives `rd` the result of the RISC-V specification. It does
not where the host's `IDIV` faults, for the most negative value by `-1`, and where the
divisor was moved out of `CX` because the dividend is the same register.
-/

set_option autoImplicit false

namespace RiaJit.Translate

open EmitLogic X86

/-! ## The division itself -/

/-- Whether a division of the given size overflows. -/
def OverflowsSized (size : OpSize) (a b : BitVec 64) : Prop :=
  match size with
  | .s64 => Overflows a b
  | .s32 => Overflows (a.setWidth 32) (b.setWidth 32)

/-- Whether a divisor of the given size is zero. -/
def isZero (size : OpSize) (b : BitVec 64) : Bool :=
  match size with
  | .s64 => b == 0#64
  | .s32 => b.setWidth 32 == 0#32

/-- What the division leaves in `AX` and `DX`; a 32-bit result is not extended yet. -/
def hostPart (size : OpSize) (signed : Bool) (part : DivPart) (a b : BitVec 64) : BitVec 64 :=
  match size with
  | .s64 => divide signed part a b
  | .s32 => (divide signed part (a.setWidth 32) (b.setWidth 32)).setWidth 64

instance (size : OpSize) (a b : BitVec 64) : Decidable (OverflowsSized size a b) :=
  match size with
  | .s64 => inferInstanceAs (Decidable (Overflows _ _))
  | .s32 => inferInstanceAs (Decidable (Overflows _ _))

section Divide

variable {size : OpSize} {signed : Bool} {h : HostState}

/-- The state after the division; none where it faults. -/
def divided (size : OpSize) (signed : Bool) (h : HostState) : Option HostState :=
  if isZero size (h.reg .cx) ∨ signed ∧ OverflowsSized size (h.reg .ax) (h.reg .cx) then none
  else some (h.setDxAx (hostPart size signed .remainder (h.reg .ax) (h.reg .cx))
    (hostPart size signed .quotient (h.reg .ax) (h.reg .cx)))

/-- The instructions of a division. -/
def divideCode (size : OpSize) (signed : Bool) : List FeInstr :=
  if signed then [.cSep size, .idivr size .cx]
  else [.alurr .xor .s32 .dx .dx, .divr size .cx]

/-- `DX` may have been filled before the results are put in place. -/
theorem setDxAx_fill (h : HostState) (fill dx ax : BitVec 64) :
    (h.setReg .dx fill).setDxAx dx ax = h.setDxAx dx ax := by
  unfold HostState.setDxAx HostState.setReg
  simp

theorem setWidth_setWidth_32 (a : BitVec 32) : (a.setWidth 64).setWidth 32 = a := by
  rw [BitVec.setWidth_setWidth_of_le _ (by omega), BitVec.setWidth_eq]

theorem idivr_filled (size : OpSize) (h : HostState) :
    (FeInstr.cSep size).exec h >>= (FeInstr.idivr size .cx).exec = divided size true h := by
  cases size with
  | s64 =>
      show (signedDivide (signFill (h.reg .ax)) (h.reg .ax) (h.reg .cx)).map _ = _
      rw [signedDivide_signFill (by omega)]
      unfold divided isZero OverflowsSized hostPart
      by_cases hfault : h.reg .cx = 0#64 ∨ Overflows (h.reg .ax) (h.reg .cx)
      · rw [if_pos hfault, if_pos (by simpa using hfault)]
        rfl
      · rw [if_neg hfault, if_neg (by simpa using hfault)]
        exact congrArg some (setDxAx_fill ..)
  | s32 =>
      show (signedDivide (((signFill ((h.reg .ax).setWidth 32)).setWidth 64).setWidth 32)
        ((h.reg .ax).setWidth 32) ((h.reg .cx).setWidth 32)).map _ = _
      rw [setWidth_setWidth_32, signedDivide_signFill (by omega)]
      unfold divided isZero OverflowsSized hostPart
      by_cases hfault : (h.reg .cx).setWidth 32 = 0#32 ∨
          Overflows ((h.reg .ax).setWidth 32) ((h.reg .cx).setWidth 32)
      · rw [if_pos hfault, if_pos (by simpa using hfault)]
        rfl
      · rw [if_neg hfault, if_neg (by simpa using hfault)]
        exact congrArg some (setDxAx_fill ..)

theorem divr_zeroed (size : OpSize) (h : HostState) :
    (FeInstr.alurr .xor .s32 .dx .dx).exec h >>= (FeInstr.divr size .cx).exec =
      divided size false h := by
  have hzero : sized .s32 AluOp.xor.eval (h.reg .dx) (h.reg .dx) = 0#64 := by
    unfold sized AluOp.eval
    simp
  cases size with
  | s64 =>
      show (unsignedDivide (sized .s32 AluOp.xor.eval (h.reg .dx) (h.reg .dx)) (h.reg .ax)
        (h.reg .cx)).map _ = _
      rw [hzero, unsignedDivide_zero]
      unfold divided isZero hostPart
      by_cases hfault : h.reg .cx = 0#64
      · rw [if_pos hfault, if_pos (by simpa using hfault)]
        rfl
      · rw [if_neg hfault, if_neg (by simpa using hfault)]
        exact congrArg some (setDxAx_fill ..)
  | s32 =>
      show (unsignedDivide ((sized .s32 AluOp.xor.eval (h.reg .dx) (h.reg .dx)).setWidth 32)
        ((h.reg .ax).setWidth 32) ((h.reg .cx).setWidth 32)).map _ = _
      rw [hzero, show (0#64).setWidth 32 = 0#32 from rfl, unsignedDivide_zero]
      unfold divided isZero hostPart
      by_cases hfault : (h.reg .cx).setWidth 32 = 0#32
      · rw [if_pos hfault, if_pos (by simpa using hfault)]
        rfl
      · rw [if_neg hfault, if_neg (by simpa using hfault)]
        exact congrArg some (setDxAx_fill ..)

theorem divideCode_runs : runCode FeInstr.exec (divideCode size signed) h =
    divided size signed h := by
  have hpair : ∀ i j, runCode FeInstr.exec [i, j] h = i.exec h >>= j.exec := fun i j => by
    simp only [runCode, Option.bind_fun_some]
    rfl
  cases signed with
  | true => exact (hpair _ _).trans (idivr_filled size h)
  | false => exact (hpair _ _).trans (divr_zeroed size h)

/-- On overflow it is `IDIV` that faults. -/
theorem idivr_stops (hover : OverflowsSized size (h.reg .ax) (h.reg .cx)) :
    ∃ h', (FeInstr.cSep size).exec h = some h' ∧ (FeInstr.idivr size .cx).exec h' = none := by
  have hnone : (FeInstr.cSep size).exec h >>= (FeInstr.idivr size .cx).exec = none := by
    rw [idivr_filled]
    exact if_pos (.inr ⟨rfl, hover⟩)
  cases size with
  | s64 => exact ⟨_, rfl, hnone⟩
  | s32 => exact ⟨_, rfl, hnone⟩

theorem step_idivr {enc : Encoder} {code : CodeAt} {rip : BitVec 64}
    (hcode : code rip = some (.idivr size .cx)) (hexec : (FeInstr.idivr size .cx).exec h = none) :
    enc.step code ⟨rip, h⟩ = none := by
  unfold Encoder.step
  rw [hcode]
  show ((FeInstr.idivr size .cx).exec h).map _ = none
  rw [hexec]
  rfl

end Divide

/-! ## The two branches -/

section Branches

variable {size : OpSize} {signed : Bool} {part : DivPart} {h : HostState} {R : FeReg}

/-- The extension of a 32-bit result. -/
def extendCode (size : OpSize) (part : DivPart) (R : FeReg) : List FeInstr :=
  match size with
  | .s64 => []
  | .s32 => [.movsxr64r32 R (DivPart.reg part)]

/-- The code for a divisor of zero. -/
def zeroCode (size : OpSize) (part : DivPart) (R : FeReg) : List FeInstr :=
  match size, part with
  | .s64, .quotient => [.mov64ri .ax (-1#64)]
  | .s64, .remainder => [.movrr .s64 .dx .ax]
  | .s32, .quotient => [.mov64ri R (-1#64)]
  | .s32, .remainder => [.movsxr64r32 R .ax]

/-- The move of a 64-bit result. -/
def endCode (size : OpSize) (part : DivPart) (R : FeReg) : List FeInstr :=
  match size with
  | .s64 => if R ≠ DivPart.reg part then [.movrr .s64 R (DivPart.reg part)] else []
  | .s32 => []

theorem divideNonzero_gen (s : GenState) :
    divideNonzero size signed part .cx R s =
      ((), divideCode size signed ++ extendCode size part R, s) := by
  cases size with
  | s64 =>
      cases signed with
      | false => rfl
      | true => rfl
  | s32 =>
      cases signed with
      | false => rfl
      | true => rfl

theorem divideZero_gen (s : GenState) :
    divideZero size part .ax R s = ((), zeroCode size part R, s) := by
  cases size with
  | s64 =>
      cases part with
      | quotient => rfl
      | remainder => rfl
  | s32 =>
      cases part with
      | quotient => rfl
      | remainder => rfl

theorem divideEnd_gen (s : GenState) : divideEnd size part R s = ((), endCode size part R, s) := by
  cases size with
  | s64 =>
      unfold divideEnd moveResult onlyIf endCode
      dsimp only
      split
      · rfl
      · rfl
  | s32 => rfl

/-- The values of `AX` and `DX` after the division. -/
theorem setDxAx_part (h : HostState) (f : DivPart → BitVec 64) (part : DivPart) :
    (h.setDxAx (f .remainder) (f .quotient)).reg (DivPart.reg part) = f part := by
  cases part with
  | quotient => rfl
  | remainder => rfl

/-- A result in `AX` or `DX` is moved to the destination. -/
theorem endCode_runs (h₁ : HostState) (hs : Scratches h h₁ (ResultScratch R)) {v : BitVec 64}
    (hv : h₁.reg (DivPart.reg part) = v) :
    ∃ h', runCode FeInstr.exec (endCode .s64 part R) h₁ = some h' ∧
      Scratches h h' (ResultScratch R) ∧
      h'.reg R = v := by
  obtain ⟨h', hrun, hw⟩ := moveCode_runs h₁ R (DivPart.reg part)
  refine ⟨h', hrun, hs.trans hw.scratches fun Q hQ => .inr (.inr hQ), ?_⟩
  rw [hw.reg, Function.update_self, hv]

/-- A value is written to the destination, which is all there is to do. -/
theorem writeCode_runs {i : FeInstr} {v : BitVec 64} (h₁ : HostState)
    (hs : Scratches h h₁ (ResultScratch R)) (hexec : i.exec h₁ = some (h₁.setReg R v)) :
    ∃ h', runCode FeInstr.exec [i] h₁ = some h' ∧ Scratches h h' (ResultScratch R) ∧
      h'.reg R = v := by
  refine ⟨h₁.setReg R v, ?_, hs.trans (writes_setReg h₁ R v).scratches fun Q hQ => .inr (.inr hQ),
    Function.update_self ..⟩
  show (i.exec h₁).bind some = _
  rw [hexec]
  rfl

/-- Where the divisor is not zero and the division does not overflow. -/
theorem nonzero_runs (hzero : isZero size (h.reg .cx) = false)
    (hover : ¬ (signed = true ∧ OverflowsSized size (h.reg .ax) (h.reg .cx))) :
    ∃ h₁ h', runCode FeInstr.exec (divideCode size signed ++ extendCode size part R) h = some h₁ ∧
      runCode FeInstr.exec (endCode size part R) h₁ = some h' ∧ Scratches h h' (ResultScratch R) ∧
      h'.reg R = divideSized size signed part (h.reg .ax) (h.reg .cx) := by
  let f := fun part => hostPart size signed part (h.reg .ax) (h.reg .cx)
  have hdivided : divided size signed h = some (h.setDxAx (f .remainder) (f .quotient)) := by
    refine if_neg ?_
    rw [hzero]
    exact fun hc => hc.elim (fun hf => absurd hf Bool.false_ne_true) hover
  have hpart := setDxAx_part h f part
  have hs := setDxAx_scratches h (f .remainder) (f .quotient) R
  rw [runCode_append, divideCode_runs, hdivided]
  cases size with
  | s64 =>
      obtain ⟨h', hrun, hs', hv⟩ := endCode_runs _ hs hpart
      exact ⟨_, h', rfl, hrun, hs', hv⟩
  | s32 =>
      obtain ⟨h', hrun, hs', hv⟩ := writeCode_runs (i := .movsxr64r32 R (DivPart.reg part)) _ hs rfl
      refine ⟨h', h', hrun, rfl, hs', hv.trans ?_⟩
      rw [hpart]
      show ((BitVec.setWidth 64 _).setWidth 32).signExtend 64 = sext32 _
      rw [setWidth_setWidth_32]
      rfl

/-- Where the divisor is zero. -/
theorem zero_runs (hzero : isZero size (h.reg .cx) = true) :
    ∃ h₁ h', runCode FeInstr.exec (zeroCode size part R) h = some h₁ ∧
      runCode FeInstr.exec (endCode size part R) h₁ = some h' ∧ Scratches h h' (ResultScratch R) ∧
      h'.reg R = divideSized size signed part (h.reg .ax) (h.reg .cx) := by
  have hs : Scratches h h (ResultScratch R) := ⟨fun _ _ => rfl, rfl, rfl, rfl⟩
  -- in 64 bits the result is left where `DIV` would leave it, in 32 bits it is written at once
  cases size with
  | s64 =>
      have hcx : h.reg .cx = 0#64 := beq_iff_eq.1 hzero
      have hresult : ∀ v, v = divideSized .s64 signed part (h.reg .ax) (h.reg .cx) →
          Scratches h (h.setReg (DivPart.reg part) v) (ResultScratch R) ∧
          (h.setReg (DivPart.reg part) v).reg (DivPart.reg part) =
            divideSized .s64 signed part (h.reg .ax) (h.reg .cx) := by
        intro v hv
        refine ⟨hs.trans (writes_setReg h _ v).scratches fun Q hQ => ?_,
          (Function.update_self ..).trans hv⟩
        rw [hQ]
        cases part with
        | quotient => exact .inl rfl
        | remainder => exact .inr (.inl rfl)
      rw [hcx] at hresult ⊢
      cases part with
      | quotient =>
          obtain ⟨hs', hv'⟩ := hresult _ (divide_zero signed .quotient _).symm
          obtain ⟨h', hrun, hs'', hv''⟩ := endCode_runs _ hs' hv'
          exact ⟨_, h', rfl, hrun, hs'', hv''⟩
      | remainder =>
          obtain ⟨hs', hv'⟩ := hresult _ (divide_zero signed .remainder _).symm
          obtain ⟨h', hrun, hs'', hv''⟩ := endCode_runs _ hs' hv'
          exact ⟨_, h', rfl, hrun, hs'', hv''⟩
  | s32 =>
      have hcx : (h.reg .cx).setWidth 32 = 0#32 := beq_iff_eq.1 hzero
      cases part with
      | quotient =>
          obtain ⟨h', hrun, hs', hv⟩ := writeCode_runs (i := .mov64ri R (-1#64)) h hs rfl
          refine ⟨h', h', hrun, rfl, hs', hv.trans ?_⟩
          unfold divideSized
          dsimp only
          rw [hcx, divide_zero]
          rfl
      | remainder =>
          obtain ⟨h', hrun, hs', hv⟩ := writeCode_runs (i := .movsxr64r32 R .ax) h hs rfl
          refine ⟨h', h', hrun, rfl, hs', hv.trans ?_⟩
          unfold divideSized
          dsimp only
          rw [hcx, divide_zero]
          rfl

end Branches

/-! ## The operands -/

/-- The value in `CX` when the division starts: that of `rs2`, or what had to give way where
`rs1` is the same register. A destination `x0` that lies in `CX` is zeroed. -/
def divisor (g : GuestState) (r : RegisterInfo) (h : HostState) (instr : RiscInstr) : BitVec 64 :=
  match displaced r instr.regSrc2 instr.regSrc1 2 0 with
  | some k =>
      if instr.regDest = x0 ∧ r.replacementContent k = x0 then 0#64 else h.reg (getRegForIndex k)
  | none => g.read instr.regSrc2

/-- What holds when the divisor has been tested. -/
structure DivStart (g : GuestState) (r : RegisterInfo) (h : HostState) (instr : RiscInstr)
    (size : OpSize) (R : FeReg) (r' : RegisterInfo) (h' : HostState) : Prop where
  rep : Represents instr.regDest g r' h'
  outside : Outside h h'
  loc : Located r' R instr.regDest
  dx : r'.replacementContent 1 = invalidReg
  ax : r'.replacementContent 0 = invalidReg ∨ r'.replacementContent 0 = instr.regDest
  dividend : h'.reg .ax = g.read instr.regSrc1
  divisor : h'.reg .cx = divisor g r h instr
  tested : ∃ flags, h'.flags = some flags ∧ Cond.holds .z flags = isZero size (h'.reg .cx)

section Emission

variable {env : Env} {instr : RiscInstr} {s : EmitState} {g : GuestState} {h h₁ h' : HostState}
  {r r₁ r' : RegisterInfo} {e : Bool} {R : FeReg} {size : OpSize} {signed : Bool} {part : DivPart}

theorem divisor_of_cleared (hp : Paired g r h instr.regSrc2 instr.regSrc1 2 0 r₁ h₁)
    (hc : Cleared g instr.regDest r₁ h₁ R r' h') : h'.reg .cx = divisor g r h instr := by
  rw [hc.cxValue, show h₁.reg .cx = _ from hp.first]
  unfold divisor
  cases hd : displaced r instr.regSrc2 instr.regSrc1 2 0 with
  | none =>
      rw [firstValue_of_none hd]
      by_cases hzeroed : instr.regDest = x0 ∧ r₁.replacementContent 2 = x0
      · rw [if_pos hzeroed]
        rcases hp.kept hd with hrs2 | hinvalid
        · rw [← hrs2, hzeroed.2]
          rfl
        · exact absurd (hinvalid.symm.trans hzeroed.2) nofun
      · rw [if_neg hzeroed]
  | some k => rw [firstValue_of_some hd, hp.left k hd]

/-- The operands of a division. -/
theorem divOperands_runs (flags : Flags) (size : OpSize) (hrep : Represents x0 g r h)
    (hrs1 : instr.regSrc1 < 32) (hrs2 : instr.regSrc2 < 32) (hrd : instr.regDest < 32) :
    ∃ R r' h', RunsOn (divOperands instr flags size) ⟨r, e⟩ h (.ax, .cx, R) ⟨r', e⟩ h' ∧
      DivStart g r h instr size R r' h' := by
  obtain ⟨r₁, h₁, r₂, h₂, hrun₁, hrun₂, hp⟩ :=
    getSrcInto_pair (i := 2) (j := 0) (e := e) flags hrep hrs2 hrs1 (by decide)
  obtain ⟨R, r₃, h₃, r₄, h₄, r', h', hrun₃, hrun₄, hrun₅, hc⟩ :=
    clear_runs (e := e) flags hp.rep hrd
  have htest : ∃ flags, (testZero size .cx).exec h' = some { h' with flags := some flags } ∧
      Cond.holds .z flags = isZero size (h'.reg .cx) := by
    cases size with
    | s64 => exact ⟨_, rfl, by simp [Cond.holds, testFlags, isZero]⟩
    | s32 => exact ⟨_, rfl, by simp [Cond.holds, testFlags, isZero]⟩
  obtain ⟨tested, hexec, hzero⟩ := htest
  have hencodable : (testZero size .cx).encodable = true := by
    cases size with
    | s64 => rfl
    | s32 => rfl
  have hout : Outside h h' := (hp.frame.trans hc.frame).outside
  have hdivisor := divisor_of_cleared hp hc
  exact ⟨R, r', { h' with flags := some tested },
    .bind hrun₁ (.bind hrun₂ (.bind hrun₃ (.bind hrun₄ (.bind hrun₅
      (.bind (runs_feEnc64 hencodable hexec) (Runs.ret _ _ _)))))),
    ⟨hc.rep.wf, hc.rep.regs, hc.rep.mem⟩, ⟨hout.stack, hout.sp, hout.cell⟩, hc.loc, hc.dx, hc.ax,
    hc.axValue.trans hp.second, hdivisor, tested, rfl, hzero⟩

variable (instr) in
theorem bounded_divOperands (flags : Flags) (size : OpSize) :
    Bounded 12 (divOperands instr flags size) :=
  .bind (bounded_getSrcInto flags _ _) fun _ => .bind (bounded_getSrcInto flags _ _) fun _ =>
    .bind (bounded_invalidateReplacement 1) fun _ => .bind
      (bounded_invalidateReplacement 0) fun _ =>
      .bind (bounded_getRd flags instr) fun _ => .bind (bounded_feEnc64 _) fun _ => .ret _

variable (size part R) in
theorem zeroCode_length : (zeroCode size part R).length = 1 := by
  cases size with
  | s64 =>
      cases part with
      | quotient => rfl
      | remainder => rfl
  | s32 =>
      cases part with
      | quotient => rfl
      | remainder => rfl

variable (size signed part R) in
theorem nonzeroCode_length :
    (divideCode size signed ++ extendCode size part R).length ≤ 3 := by
  unfold divideCode extendCode
  cases size with
  | s64 =>
      split
      · exact Nat.le_succ 2
      · exact Nat.le_succ 2
  | s32 =>
      split
      · exact Nat.le_refl 3
      · exact Nat.le_refl 3

variable (size part R) in
theorem endCode_length : (endCode size part R).length ≤ 1 := by
  unfold endCode
  split
  · split
    · exact Nat.le_refl 1
    · exact Nat.zero_le 1
  · exact Nat.zero_le 1

variable (size signed part) in
/-- What a division emits. -/
theorem translateDivision_appends {pre : List FeInstr}
    (hpre : divOperands instr env.flags size s.gen = ((.ax, .cx, R), pre, ⟨r', s.gen.err⟩)) :
    Appends (translateDivision env instr size signed part) s ()
      (pre ++ (choice env.enc (env.enc.after (Emit.current env s) pre) .z
        (divideCode size signed ++ extendCode size part R) (zeroCode size part R) ++
          endCode size part R)) ⟨r', s.gen.err⟩ := by
  have hcurrent : Emit.current env (s.extend pre ⟨r', s.gen.err⟩) =
      env.enc.after (Emit.current env s) pre := current_extend _ _
  rw [← hcurrent]
  have hnonzero := env.enc.codeSize_le (divideCode size signed ++ extendCode size part R)
  have hzero := env.enc.codeSize_le (zeroCode size part R)
  have hlength := nonzeroCode_length R size signed part
  rw [zeroCode_length] at hzero
  exact (appends_lift hpre).bind ((appends_choice (divideNonzero_gen _) (divideZero_gen _)
    (by omega) (by omega)).bind (appends_lift (divideEnd_gen _)))

variable (part R) in
/-- One of the branches runs unless the division overflows. -/
theorem branch_runs {h : HostState} {b : Bool} (hb : b = isZero size (h.reg .cx))
    (hover : ¬ (signed = true ∧ OverflowsSized size (h.reg .ax) (h.reg .cx))) :
    ∃ h₁ h', runCode FeInstr.exec (if b then zeroCode size part R
        else divideCode size signed ++ extendCode size part R) h = some h₁ ∧
      runCode FeInstr.exec (endCode size part R) h₁ = some h' ∧ Scratches h h' (ResultScratch R) ∧
      h'.reg R = divideSized size signed part (h.reg .ax) (h.reg .cx) := by
  cases b with
  | true => exact zero_runs hb.symm
  | false => exact nonzero_runs hb.symm hover

theorem OverflowsSized.not_zero {a b : BitVec 64} (hover : OverflowsSized size a b) :
    isZero size b = false := by
  cases size with
  | s64 =>
      obtain ⟨-, rfl⟩ := hover
      rfl
  | s32 =>
      obtain ⟨-, hb⟩ := hover
      unfold isZero
      dsimp only
      rw [hb]
      rfl

variable (signed part) in
/-- What a division assigns, and when. -/
theorem translateDivision_assigns {v : BitVec 64} (hrep : Represents x0 g s.gen.rInfo h)
    (hrs1 : instr.regSrc1 < 32) (hrs2 : instr.regSrc2 < 32) (hrd : instr.regDest < 32) :
    Assigns env (translateDivision env instr size signed part) s g h instr.regDest v ↔
      ¬ (signed = true ∧ OverflowsSized size (g.read instr.regSrc1)
        (divisor g s.gen.rInfo h instr)) ∧
      (instr.regDest = x0 ∨ divideSized size signed part (g.read instr.regSrc1)
        (divisor g s.gen.rInfo h instr) = v) := by
  obtain ⟨R, r', h₁, ⟨pre, hpre, hrunPre⟩, hstart⟩ :=
    divOperands_runs (e := s.gen.err) env.flags size hrep hrs1 hrs2 hrd
  obtain ⟨flags, hflags, hz⟩ := hstart.tested
  have happ := translateDivision_appends size signed part hpre
  -- the code is short, so its addresses do not wrap
  have hlt : env.enc.codeSize (pre ++ (choice env.enc (env.enc.after (Emit.current env s) pre) .z
      (divideCode size signed ++ extendCode size part R) (zeroCode size part R) ++
        endCode size part R)) < 2 ^ 64 := by
    have hboundPre := bounded_divOperands instr env.flags size s.gen
    rw [hpre] at hboundPre
    have hnonzero := nonzeroCode_length R size signed part
    have hzero := zeroCode_length R size part
    have hend := endCode_length R size part
    refine Nat.lt_of_le_of_lt (env.enc.codeSize_le _) ?_
    simp only [List.length_append, choice_length] at hnonzero hboundPre ⊢
    omega
  rw [← hstart.dividend, ← hstart.divisor]
  by_cases hover : signed = true ∧ OverflowsSized size (h₁.reg .ax) (h₁.reg .cx)
  · -- the quotient does not fit: `IDIV` faults, so nothing is assigned
    obtain ⟨rfl, hover⟩ := hover
    obtain ⟨h₂, hfill, hfault⟩ := idivr_stops hover
    refine iff_of_false (not_assigns happ fun h' => ?_) fun hc => hc.1 ⟨rfl, hover⟩
    refine not_runsTo_around hlt hrunPre fun code hholds => ?_
    have hsplit : Holds env.enc code (env.enc.after (Emit.current env s) pre)
        (choice env.enc (env.enc.after (Emit.current env s) pre) .z
          ([.cSep size] ++ .idivr size .cx :: extendCode size part R) (zeroCode size part R)) :=
      hholds
    refine choice_stops hsplit hflags (hz.trans hover.not_zero) ?_
      fun rip hrip => step_idivr hrip hfault
    show (FeInstr.exec _ _).bind _ = _
    rw [hfill]
    rfl
  · obtain ⟨h₂, h', hbranch, hend, hs, hvalue⟩ :=
      branch_runs R part hz hover
    obtain ⟨hrep', hout⟩ := hstart.rep.result hrd hstart.loc hstart.dx hstart.ax hs
    have hout' := hstart.outside.trans hout
    have hrun := runsTo_around hlt hrunPre
      (fun code hholds => choice_runs hholds hflags hbranch) hend
    rw [assigns_iff hlt hrd happ hrun hrep' hout', hvalue]
    exact (and_iff_right hover).symm

end Emission

/-! ## The instructions -/

/-- The size, signedness and part of the divisions of the M extension. -/
def divisionForm : RiscMnem → Option (OpSize × Bool × DivPart)
  | .div => some (.s64, true, .quotient)
  | .divu => some (.s64, false, .quotient)
  | .rem => some (.s64, true, .remainder)
  | .remu => some (.s64, false, .remainder)
  | .divw => some (.s32, true, .quotient)
  | .divuw => some (.s32, false, .quotient)
  | .remw => some (.s32, true, .remainder)
  | .remuw => some (.s32, false, .remainder)
  | _ => none

/-- The emitter of a division and the result it should have. -/
theorem divisionForm_spec {instr : RiscInstr} {size : OpSize} {signed : Bool} {part : DivPart}
    (hform : divisionForm instr.mnem = some (size, signed, part)) (a b : BitVec 64) :
    mulDivEmitter instr.mnem =
      some (fun env instr => translateDivision env instr size signed part) ∧
      instr.mulDivResult a b = some (divideSized size signed part a b) := by
  unfold RiscInstr.mulDivResult
  generalize instr.mnem = mnem at *
  cases mnem with
  | div | divu | rem | remu | divw | divuw | remw | remuw =>
      obtain ⟨rfl, rfl, rfl⟩ : _ ∧ _ ∧ _ := by simpa [divisionForm] using hform
      exact ⟨rfl, rfl⟩
  | _ => exact absurd hform nofun

/-- Where a division gives the right result: it does not overflow, and where the divisor was
displaced from `CX` that makes no difference to the result. -/
structure DivisionExact (size : OpSize) (signed : Bool) (part : DivPart) (g : GuestState)
    (r : RegisterInfo) (h : HostState) (instr : RiscInstr) : Prop where
  no_overflow : ¬ (signed = true ∧
    OverflowsSized size (g.read instr.regSrc1) (divisor g r h instr))
  same_result : instr.regDest = x0 ∨
    divideSized size signed part (g.read instr.regSrc1) (divisor g r h instr) =
      divideSized size signed part (g.read instr.regSrc1) (g.read instr.regSrc2)

/-- The code of a division gives `rd` its result exactly where `DivisionExact` says so. -/
theorem division_assigns_iff {env : Env} {instr : RiscInstr} {emitter : Env → RiscInstr → Emit Unit}
    {s : EmitState} {g : GuestState} {h : HostState} {size : OpSize} {signed : Bool}
    {part : DivPart} {v : BitVec 64} (hform : divisionForm instr.mnem = some (size, signed, part))
    (hemit : mulDivEmitter instr.mnem = some emitter)
    (hresult : instr.mulDivResult (g.read instr.regSrc1) (g.read instr.regSrc2) = some v)
    (hrs1 : instr.regSrc1 < 32) (hrs2 : instr.regSrc2 < 32) (hrd : instr.regDest < 32)
    (hrep : Represents x0 g s.gen.rInfo h) :
    Assigns env (emitter env instr) s g h instr.regDest v ↔
      DivisionExact size signed part g s.gen.rInfo h instr := by
  obtain ⟨hemit', hresult'⟩ := divisionForm_spec hform (g.read instr.regSrc1) (g.read instr.regSrc2)
  obtain rfl := Option.some.inj (hemit'.symm.trans hemit)
  obtain rfl := Option.some.inj (hresult'.symm.trans hresult)
  rw [translateDivision_assigns signed part hrep hrs1 hrs2 hrd]
  exact ⟨fun hc => ⟨hc.1, hc.2⟩, fun hc => ⟨hc.no_overflow, hc.same_result⟩⟩

/-- `DIV x12, x10, x11`. -/
def divX12 : RiscInstr := ⟨0x1000#64, .div, .regReg, 10, 11, 12, 0#64⟩

/-- A host with two operands where `x10` and `x11` are mapped. -/
def operandsHost (a b : BitVec 64) : HostState :=
  ⟨fun R => if R = .di then a else if R = .r11 then b else 0#64, none, fun _ => 0#64,
    fun _ => 0#8, []⟩

/-- The guest with these operands. -/
def operandsGuest (a b : BitVec 64) : GuestState :=
  ⟨regValue blockStart.gen.rInfo (operandsHost a b), fun _ => 0#8⟩

theorem operands_represented (a b : BitVec 64) :
    Represents x0 (operandsGuest a b) blockStart.gen.rInfo (operandsHost a b) :=
  represents_self (wellFormed_initial 0#64) _

theorem division_assigns_iff_seven_by_two :
    Assigns unfused (translateDIV unfused divX12) blockStart (operandsGuest 7#64 2#64)
        (operandsHost 7#64 2#64) 12 3#64 ↔
      DivisionExact .s64 true .quotient (operandsGuest 7#64 2#64) blockStart.gen.rInfo
        (operandsHost 7#64 2#64) divX12 :=
  division_assigns_iff rfl (show mulDivEmitter divX12.mnem = some translateDIV from rfl) rfl
    (by decide) (by decide) (by decide) (operands_represented 7#64 2#64)

/-- The most negative value by `-1` faults at the `IDIV`. -/
theorem division_faults :
    ¬ ∀ (env : Env) (instr : RiscInstr) (emitter : Env → RiscInstr → Emit Unit) (s : EmitState)
      (g : GuestState) (h : HostState) (v : BitVec 64), (divisionForm instr.mnem).isSome →
      mulDivEmitter instr.mnem = some emitter →
      instr.mulDivResult (g.read instr.regSrc1) (g.read instr.regSrc2) = some v →
      instr.regSrc1 < 32 → instr.regSrc2 < 32 → instr.regDest < 32 →
      Represents x0 g s.gen.rInfo h → Assigns env (emitter env instr) s g h instr.regDest v := by
  intro hall
  have hassigns := hall unfused divX12 translateDIV blockStart
    (operandsGuest (BitVec.intMin 64) (BitVec.allOnes 64))
    (operandsHost (BitVec.intMin 64) (BitVec.allOnes 64)) _ rfl rfl rfl (by decide) (by decide)
    (by decide) (operands_represented _ _)
  have hrep := operands_represented (BitVec.intMin 64) (BitVec.allOnes 64)
  have hexact := (translateDivision_assigns true .quotient hrep (by decide) (by decide)
    (by decide)).1 hassigns
  exact hexact.1 ⟨rfl, rfl, rfl⟩

end RiaJit.Translate
