import RiaJit.Gen.Assignment
import RiaJit.Gen.BlockSimulation
import RiaJit.Gen.CodeLength
import RiaJit.Gen.MulDiv

/-!
# Upper halves of products

When the code of `MULH`, `MULHSU` and `MULHU` gives `rd` the result of the RISC-V
specification. It does not where `AX` lost the value of `rs1` because `rs2` is the same
register, and `MULHSU` not where it reads a stale slot of `rs1`.
-/

set_option autoImplicit false

namespace RiaJit.Translate

open EmitLogic X86

/-- What `translate_MULHSU` adds for `rs1`: a mapped register, or the slot. That of a register
that is also `rs2`, or of `x0`, was not written before. -/
def addend (g : GuestState) (h : HostState) (instr : RiscInstr) : BitVec 64 :=
  if gpMap instr.regSrc1 = none ∧ (instr.regSrc1 = x0 ∨ instr.regSrc1 = instr.regSrc2) then
    h.cell (.gp instr.regSrc1)
  else g.read instr.regSrc1

/-- What the code of these instructions computes from the value in `AX`, the addend and the
value in `CX`. -/
def upperProduct (mnem : RiscMnem) (a addend b : BitVec 64) : Option (BitVec 64) :=
  match mnem with
  | .mulh => some (mulHigh a b)
  | .mulhsu => some (mulHigh a b + (if b.msb then addend else 0#64))
  | .mulhu => some (mulHighUnsigned a b)
  | _ => none

/-- What holds when the operands are in place. -/
structure MulStart (g : GuestState) (r : RegisterInfo) (h : HostState) (instr : RiscInstr)
    (R : FeReg) (r' : RegisterInfo) (h' : HostState) : Prop where
  rep : Represents instr.regDest g r' h'
  outside : Outside h h'
  loc : Located r' R instr.regDest
  dx : r'.replacementContent 1 = invalidReg
  ax : r'.replacementContent 0 = invalidReg ∨ r'.replacementContent 0 = instr.regDest
  first : h'.reg .ax = firstValue g r h instr.regSrc1 instr.regSrc2 0 2
  second : h'.reg .cx = g.read instr.regSrc2
  slot : gpMap instr.regSrc1 = none → h'.cell (.gp instr.regSrc1) = addend g h instr
  mapped : ∀ R, gpMap instr.regSrc1 = some R → h'.reg R = addend g h instr

section Operands

variable {instr : RiscInstr} {g : GuestState} {h h₁ h' : HostState} {r r₁ r' : RegisterInfo}
  {e : Bool} {R : FeReg}

/-- The slot of `rs1` behind the operands. -/
theorem slot_of_cleared (hrs1 : instr.regSrc1 < 32) (hmap : gpMap instr.regSrc1 = none)
    (hp : Paired g r h instr.regSrc1 instr.regSrc2 0 2 r₁ h₁)
    (hc : Cleared g instr.regDest r₁ h₁ R r' h') :
    h'.cell (.gp instr.regSrc1) = addend g h instr := by
  have hvalid : instr.regSrc1 ≠ invalidReg := by
    unfold invalidReg
    omega
  have hother : ∀ i j, i ≠ j → r₁.replacementContent i = instr.regSrc1 →
      r₁.replacementContent j ≠ instr.regSrc1 := fun i j hij hi hj =>
    hij (hp.rep.wf.distinct i j (hi.trans hj.symm) (by rwa [hi]) (by rwa [hi]))
  unfold addend
  by_cases hsame : instr.regSrc1 = instr.regSrc2
  · -- `CX` holds the register, so neither of the others is written to its slot
    have hcx : r₁.replacementContent 2 = instr.regSrc1 := hp.secondContent.trans hsame.symm
    rw [if_pos ⟨hmap, .inr hsame⟩, hc.slot _ hrs1 (hother 2 1 (by decide) hcx),
      if_neg fun hax => hother 2 0 (by decide) hcx hax.1, hp.slot hmap]
  · have hax : r₁.replacementContent 0 = instr.regSrc1 := hp.held fun h => hsame h.1
    have hfirst : h₁.reg .ax = g.read instr.regSrc1 :=
      hp.first.trans (firstValue_of_none (displaced_of_ne fun h => hsame h.1))
    rw [hc.slot _ hrs1 (hother 0 1 (by decide) hax)]
    by_cases hx0 : instr.regSrc1 = x0
    · rw [if_neg fun h => h.2 hx0, if_pos ⟨hmap, .inl hx0⟩, hp.slot hmap]
    · rw [if_pos ⟨hax, hx0⟩, if_neg fun h => h.2.elim hx0 hsame, hfirst]

/-- The operands of a multiplication. -/
theorem mulOperands_runs (flags : Flags) (hrep : Represents x0 g r h)
    (hrs1 : instr.regSrc1 < 32) (hrs2 : instr.regSrc2 < 32) (hrd : instr.regDest < 32) :
    ∃ R r' h', RunsOn (mulOperands instr flags) ⟨r, e⟩ h (.cx, R) ⟨r', e⟩ h' ∧
      MulStart g r h instr R r' h' := by
  obtain ⟨r₁, h₁, r₂, h₂, hrun₁, hrun₂, hp⟩ :=
    getSrcInto_pair (i := 0) (j := 2) (e := e) flags hrep hrs1 hrs2 (by decide)
  obtain ⟨R, r₃, h₃, r₄, h₄, r', h', hrun₃, hrun₄, hrun₅, hc⟩ :=
    clear_runs (e := e) flags hp.rep hrd
  have hframe : Frame h h' := hp.frame.trans hc.frame
  refine ⟨R, r', h', .bind hrun₁ (.bind hrun₂ (.bind hrun₃ (.bind hrun₄ (.bind hrun₅
    (Runs.ret _ _ _))))), hc.rep, hframe.outside, hc.loc, hc.dx, hc.ax, hc.axValue.trans hp.first,
    ?_, fun hmap => slot_of_cleared hrs1 hmap hp hc, fun mapped hmap => ?_⟩
  · rw [hc.cxValue, show h₂.reg .cx = _ from hp.second]
    by_cases hzeroed : instr.regDest = x0 ∧ r₂.replacementContent 2 = x0
    · rw [if_pos hzeroed, ← hp.secondContent, hzeroed.2]
      rfl
    · rw [if_neg hzeroed]
  · have hx0 : instr.regSrc1 ≠ x0 := fun hx0 => by
      rw [hx0, gpMap_x0] at hmap
      exact absurd hmap nofun
    have hnone : gpMap instr.regSrc1 ≠ none := by
      rw [hmap]
      exact Option.some_ne_none _
    unfold addend
    rw [if_neg fun h => hnone h.1, hframe.reg mapped (gpMap_ne_replacement hmap), read_eq,
      if_neg hx0, ← hrep.regs _ hx0 hx0 hrs1, regValue_mapped hmap]

variable (instr) in
theorem bounded_mulOperands (flags : Flags) : Bounded 11 (mulOperands instr flags) :=
  .bind (bounded_getSrcInto flags _ _) fun _ => .bind (bounded_getSrcInto flags _ _) fun _ =>
    .bind (bounded_invalidateReplacement 1) fun _ => .bind
      (bounded_invalidateReplacement 0) fun _ =>
      .bind (bounded_getRd flags instr) fun _ => .ret _

end Operands

/-! ## The products -/

section Products

variable {instr : RiscInstr} {env : Env} {s : EmitState} {g : GuestState} {h h' : HostState}
  {r r' : RegisterInfo} {e : Bool} {R : FeReg} {v a : BitVec 64}

/-- The end of the three emitters. -/
theorem moveResult_runs (gen : GenState) (h : HostState) (R src : FeReg) :
    ∃ h', RunsOn (moveResult R src) gen h () gen h' ∧ Writes h h' R (h.reg src) := by
  by_cases hne : R ≠ src
  · exact ⟨_, runs_onlyIf_pos hne (runs_feEnc64 rfl rfl), writes_setReg h R _⟩
  · refine ⟨h, runs_onlyIf_neg hne, ?_⟩
    rw [← not_not.1 hne]
    exact writes_refl h R

/-- An upper half in `DX` is moved to the destination. -/
theorem product_moved {h₁ : HostState} (hs : Scratches h h₁ (ResultScratch R)) (gen : GenState) :
    ∃ h', RunsOn (moveResult R .dx) gen h₁ () gen h' ∧ Scratches h h' (ResultScratch R) ∧
      h'.reg R = h₁.reg .dx := by
  obtain ⟨h', hrun, hw⟩ := moveResult_runs gen h₁ R .dx
  refine ⟨h', hrun, hs.trans hw.scratches fun Q hQ => .inr (.inr hQ), ?_⟩
  rw [hw.reg, Function.update_self]

/-- `MULH` and `MULHU`. -/
theorem mulUpper_assigns {mul : FeReg → FeInstr} {product : BitVec 64 → BitVec 64 → BitVec 64}
    (hencodable : (mul .cx).encodable = true)
    (hexec : ∀ h, ∃ low, (mul .cx).exec h = some (h.setDxAx (product (h.reg .ax) (h.reg .cx)) low))
    (hrep : Represents x0 g s.gen.rInfo h) (hrs1 : instr.regSrc1 < 32) (hrs2 : instr.regSrc2 < 32)
    (hrd : instr.regDest < 32) :
    Assigns env (Emit.lift (mulUpper instr env.flags mul)) s g h instr.regDest v ↔
      instr.regDest = x0 ∨
        product (firstValue g s.gen.rInfo h instr.regSrc1 instr.regSrc2 0 2)
          (g.read instr.regSrc2) = v := by
  obtain ⟨R, r', h₁, hrun, hstart⟩ := mulOperands_runs (e := s.gen.err) env.flags hrep hrs1 hrs2 hrd
  obtain ⟨low, hmul⟩ := hexec h₁
  rw [hstart.first, hstart.second] at hmul
  obtain ⟨h', hmove, hs, hvalue⟩ :=
    product_moved (setDxAx_scratches h₁ _ low R) ⟨r', s.gen.err⟩
  obtain ⟨hrep', hout⟩ := hstart.rep.result hrd hstart.loc hstart.dx hstart.ax hs
  have hbound : Bounded 13 (mulUpper instr env.flags mul) :=
    .bind (bounded_mulOperands instr env.flags) fun _ => .bind (bounded_feEnc64 _) fun _ =>
      bounded_onlyIf (bounded_feEnc64 _)
  rw [assigns_lift hbound (by omega) hrd
    (.bind hrun (.bind (runs_feEnc64 hencodable hmul) hmove)) hrep' (hstart.outside.trans hout),
    hvalue]
  exact Iff.rfl

/-! ## `MULHSU` -/

/-- The instruction of `addRs1`. -/
def addRs1Instr (instr : RiscInstr) : FeInstr :=
  match gpMap instr.regSrc1 with
  | none => .add64rmCell .dx (.gp instr.regSrc1)
  | some mapped => .alurr .add .s64 .dx mapped

theorem addRs1_gen (gen : GenState) : addRs1 instr gen = ((), [addRs1Instr instr], gen) := by
  unfold addRs1 addRs1Instr
  cases gpMap instr.regSrc1 with
  | none => rfl
  | some mapped => rfl

/-- The addition finds the addend where the operands left it. -/
theorem addRs1Instr_exec {h₁ : HostState} (hstart : MulStart g r h instr R r' h₁)
    (dx ax : BitVec 64) (flags : Option X86Flags) :
    (addRs1Instr instr).exec { h₁.setDxAx dx ax with flags := flags } =
      some (h₁.setDxAx (dx + addend g h instr) ax) := by
  have hset : ∀ sum, ({ h₁.setDxAx dx ax with flags := flags }.setReg .dx sum).clobberFlags =
      h₁.setDxAx sum ax := fun sum => by
    unfold HostState.setDxAx HostState.setReg HostState.clobberFlags
    have hne : FeReg.ax ≠ FeReg.dx := nofun
    dsimp only
    rw [Function.update_comm hne, Function.update_idem]
  unfold addRs1Instr
  cases hmap : gpMap instr.regSrc1 with
  | none =>
      rw [← hstart.slot hmap]
      exact congrArg some (hset _)
  | some mapped =>
      have hreg : (h₁.setDxAx dx ax).reg mapped = addend g h instr := by
        rw [← hstart.mapped mapped hmap]
        exact (Function.update_of_ne (gpMap_ne_replacement hmap 0) ..).trans
          (Function.update_of_ne (gpMap_ne_replacement hmap 1) ..)
      rw [← hreg]
      exact congrArg some (hset _)

variable (instr) in
theorem bounded_mulAndTest (flags : Flags) : Bounded 13 (mulAndTest instr flags) :=
  .bind (bounded_mulOperands instr flags) fun _ => .bind (bounded_feEnc64 _) fun _ =>
    .bind (bounded_feEnc64 _) fun _ => .ret _

/-- What `MULHSU` emits. -/
theorem translateMULHSU_appends {pre post : List FeInstr}
    (hpre : mulAndTest instr env.flags s.gen = (R, pre, ⟨r', s.gen.err⟩))
    (hpost : moveResult R .dx ⟨r', s.gen.err⟩ = ((), post, ⟨r', s.gen.err⟩)) :
    Appends (translateMULHSU env instr) s ()
      (pre ++ (skip env.enc (env.enc.after (Emit.current env s) pre) .ns
        [addRs1Instr instr] ++ post))
      ⟨r', s.gen.err⟩ := by
  have hcurrent : Emit.current env (s.extend pre ⟨r', s.gen.err⟩) =
      env.enc.after (Emit.current env s) pre := current_extend _ _
  rw [← hcurrent]
  have hsize := env.enc.codeSize_le [addRs1Instr instr]
  rw [List.length_singleton] at hsize
  exact (appends_lift hpre).bind ((appends_skip (addRs1_gen _) (by omega)).bind
    (appends_lift hpost))

/-- The upper half is corrected where the sign bit of `rs2` is set. -/
theorem skip_addRs1_runs {h₁ : HostState} (hstart : MulStart g r h instr R r' h₁)
    (dx ax b : BitVec 64) :
    ∃ flags, runCode FeInstr.exec
        (if Cond.holds .ns (testFlags b b) then [] else [addRs1Instr instr])
        { h₁.setDxAx dx ax with flags := some (testFlags b b) } =
      some { h₁.setDxAx (dx + if b.msb then addend g h instr else 0#64) ax with flags :=
        flags } := by
  have hsign : Cond.holds .ns (testFlags b b) = !b.msb := by
    unfold Cond.holds testFlags
    simp
  have hadd := addRs1Instr_exec hstart dx ax (some (testFlags b b))
  rw [hsign]
  cases b.msb with
  | false =>
      refine ⟨some (testFlags b b), ?_⟩
      rw [if_neg Bool.false_ne_true, BitVec.add_zero]
      rfl
  | true =>
      refine ⟨none, ?_⟩
      show ((addRs1Instr instr).exec _).bind some = _
      rw [hadd]
      rfl

/-- `MULHSU`. -/
theorem translateMULHSU_assigns (hrep : Represents x0 g s.gen.rInfo h)
    (hrs1 : instr.regSrc1 < 32) (hrs2 : instr.regSrc2 < 32) (hrd : instr.regDest < 32) :
    Assigns env (translateMULHSU env instr) s g h instr.regDest v ↔
      instr.regDest = x0 ∨
        mulHigh (firstValue g s.gen.rInfo h instr.regSrc1 instr.regSrc2 0 2)
          (g.read instr.regSrc2) +
          (if (g.read instr.regSrc2).msb then addend g h instr else 0#64) = v := by
  obtain ⟨R, r', h₁, hrun, hstart⟩ := mulOperands_runs (e := s.gen.err) env.flags hrep hrs1 hrs2 hrd
  let a := firstValue g s.gen.rInfo h instr.regSrc1 instr.regSrc2 0 2
  let b := g.read instr.regSrc2
  let low := (a.signExtend 128 * b.signExtend 128).setWidth 64
  have hmul : (FeInstr.imul64r .cx).exec h₁ = some (h₁.setDxAx (mulHigh a b) low) := by
    show some (h₁.setDxAx (mulHigh (h₁.reg .ax) (h₁.reg .cx)) _) = _
    rw [hstart.first, hstart.second]
  let tested := { h₁.setDxAx (mulHigh a b) low with flags := some (testFlags b b) }
  have htest : (FeInstr.test64rr .cx .cx).exec (h₁.setDxAx (mulHigh a b) low) = some tested := by
    show some { h₁.setDxAx (mulHigh a b) low with
      flags := some (testFlags (h₁.reg .cx) (h₁.reg .cx)) } = _
    rw [hstart.second]
  -- the multiplication is signed in both operands; the addition after it corrects the second one
  obtain ⟨pre, hpre, hrunPre⟩ :
    RunsOn (mulAndTest instr env.flags) s.gen h R ⟨r', s.gen.err⟩ tested :=
    .bind hrun (.bind (runs_feEnc64 rfl hmul) (.bind (runs_feEnc64 rfl htest) (Runs.ret _ _ _)))
  obtain ⟨flags, hskip⟩ := skip_addRs1_runs hstart (mulHigh a b) low b
  have hs := setDxAx_scratches h₁ (mulHigh a b + if b.msb then addend g h instr else 0#64) low R
  obtain ⟨h', ⟨post, hpost, hrunPost⟩, hs', hvalue⟩ :=
    product_moved (⟨hs.reg, hs.cell, hs.mem, hs.stack⟩ : Scratches h₁ { h₁.setDxAx (mulHigh a b +
      if b.msb then addend g h instr else 0#64) low with flags := flags } (ResultScratch R))
      ⟨r', s.gen.err⟩
  obtain ⟨hrep', hout⟩ := hstart.rep.result hrd hstart.loc hstart.dx hstart.ax hs'
  have happ := translateMULHSU_appends hpre hpost
  have hlt : env.enc.codeSize (pre ++ (skip env.enc (env.enc.after (Emit.current env s) pre) .ns
      [addRs1Instr instr] ++ post)) < 2 ^ 64 := by
    have hboundPre := bounded_mulAndTest instr env.flags s.gen
    have hboundPost : Bounded 1 (moveResult R .dx) := bounded_onlyIf (bounded_feEnc64 _)
    have hboundPost := hboundPost ⟨r', s.gen.err⟩
    rw [hpre] at hboundPre
    rw [hpost] at hboundPost
    refine Nat.lt_of_le_of_lt (env.enc.codeSize_le _) ?_
    simp only [List.length_append, skip_length, List.length_singleton] at hboundPre hboundPost ⊢
    omega
  have hrun' := runsTo_around hlt hrunPre (fun code hholds => skip_runs hholds rfl hskip) hrunPost
  rw [assigns_iff hlt hrd happ hrun' hrep' (hstart.outside.trans hout), hvalue]
  exact Iff.rfl

end Products

/-! ## The instructions -/

/-- Where the upper half of a product is right. If `AX` kept the value of `rs1`, it is unless
`MULHSU` adds a stale slot; if it was displaced, the product with what remained in `AX` must have
the same upper half. -/
def ProductExact (g : GuestState) (r : RegisterInfo) (h : HostState) (instr : RiscInstr) : Prop :=
  instr.regDest = x0 ∨
    match displaced r instr.regSrc1 instr.regSrc2 0 2 with
    | none =>
        instr.mnem = .mulhsu → (g.read instr.regSrc2).msb = true →
          addend g h instr = g.read instr.regSrc1
    | some k =>
        upperProduct instr.mnem (h.reg (getRegForIndex k)) (h.cell (.gp instr.regSrc1))
            (g.read instr.regSrc2) =
          upperProduct instr.mnem (g.read instr.regSrc1) (g.read instr.regSrc1)
            (g.read instr.regSrc2)

section Claims

variable {env : Env} {instr : RiscInstr} {s : EmitState} {g : GuestState} {h : HostState}
  {r : RegisterInfo} {v : BitVec 64}

theorem addend_of_displaced {k : Fin 3}
    (hd : displaced r instr.regSrc1 instr.regSrc2 0 2 = some k) :
    addend g h instr = h.cell (.gp instr.regSrc1) := by
  by_cases hsame : instr.regSrc1 = instr.regSrc2 ∧ gpMap instr.regSrc1 = none
  · exact if_pos ⟨hsame.2, .inr hsame.1⟩
  · rw [displaced_of_ne hsame] at hd
    exact absurd hd nofun

/-- Only `MULHSU` depends on the addend, and only for a negative `rs2`. -/
theorem upperProduct_addend (mnem : RiscMnem) (a s b : BitVec 64) :
    upperProduct mnem a s b = upperProduct mnem a a b ↔
      (mnem = .mulhsu → b.msb = true → s = a) := by
  by_cases hmnem : mnem = .mulhsu
  · subst hmnem
    unfold upperProduct
    dsimp only
    cases b.msb with
    | false => simp
    | true => simp
  · refine iff_of_true ?_ fun h => absurd h hmnem
    unfold upperProduct
    cases mnem with
    | mulhsu => exact absurd rfl hmnem
    | _ => rfl

theorem productExact_iff :
    ProductExact g r h instr ↔ instr.regDest = x0 ∨
      upperProduct instr.mnem (firstValue g r h instr.regSrc1 instr.regSrc2 0 2)
          (addend g h instr) (g.read instr.regSrc2) =
        upperProduct instr.mnem (g.read instr.regSrc1) (g.read instr.regSrc1)
          (g.read instr.regSrc2) := by
  unfold ProductExact
  cases hd : displaced r instr.regSrc1 instr.regSrc2 0 2 with
  | none => rw [firstValue_of_none hd, upperProduct_addend]
  | some k => rw [firstValue_of_some hd, addend_of_displaced hd]

/-- What the specification asks for. -/
theorem mulDivResult_upperProduct (hmnem : instr.mnem = .mulh ∨ instr.mnem = .mulhsu ∨
    instr.mnem = .mulhu) (a b : BitVec 64) :
    instr.mulDivResult a b = upperProduct instr.mnem a a b := by
  unfold RiscInstr.mulDivResult upperProduct
  rcases hmnem with hmnem | hmnem | hmnem
  · rw [hmnem]
  · rw [hmnem]
    exact congrArg some (mulHighSigned_eq a b)
  · rw [hmnem]

/-- What the code of the three instructions assigns. -/
theorem upperProduct_assigns {emitter : Env → RiscInstr → Emit Unit} {w : BitVec 64}
    (hemit : mulDivEmitter instr.mnem = some emitter)
    (hw : upperProduct instr.mnem (firstValue g s.gen.rInfo h instr.regSrc1 instr.regSrc2 0 2)
      (addend g h instr) (g.read instr.regSrc2) = some w)
    (hrs1 : instr.regSrc1 < 32) (hrs2 : instr.regSrc2 < 32) (hrd : instr.regDest < 32)
    (hrep : Represents x0 g s.gen.rInfo h) :
    Assigns env (emitter env instr) s g h instr.regDest v ↔ instr.regDest = x0 ∨ w = v := by
  unfold upperProduct at hw
  split at hw
  · rename_i hmnem
    rw [hmnem] at hemit
    obtain rfl := Option.some.inj hemit
    obtain rfl := Option.some.inj hw
    exact mulUpper_assigns rfl (fun h => ⟨_, rfl⟩) hrep hrs1 hrs2 hrd
  · rename_i hmnem
    rw [hmnem] at hemit
    obtain rfl := Option.some.inj hemit
    obtain rfl := Option.some.inj hw
    exact translateMULHSU_assigns hrep hrs1 hrs2 hrd
  · rename_i hmnem
    rw [hmnem] at hemit
    obtain rfl := Option.some.inj hemit
    obtain rfl := Option.some.inj hw
    exact mulUpper_assigns rfl (fun h => ⟨_, rfl⟩) hrep hrs1 hrs2 hrd
  · exact absurd hw nofun

/-- The code of an upper-half multiplication gives `rd` its result exactly where `ProductExact`
says so. -/
theorem mulHigh_assigns_iff {emitter : Env → RiscInstr → Emit Unit}
    (hmnem : instr.mnem = .mulh ∨ instr.mnem = .mulhsu ∨ instr.mnem = .mulhu)
    (hemit : mulDivEmitter instr.mnem = some emitter)
    (hresult : instr.mulDivResult (g.read instr.regSrc1) (g.read instr.regSrc2) = some v)
    (hrs1 : instr.regSrc1 < 32) (hrs2 : instr.regSrc2 < 32) (hrd : instr.regDest < 32)
    (hrep : Represents x0 g s.gen.rInfo h) :
    Assigns env (emitter env instr) s g h instr.regDest v ↔
      ProductExact g s.gen.rInfo h instr := by
  rw [mulDivResult_upperProduct hmnem] at hresult
  obtain ⟨w, hw⟩ : ∃ w, upperProduct instr.mnem
      (firstValue g s.gen.rInfo h instr.regSrc1 instr.regSrc2 0 2) (addend g h instr)
      (g.read instr.regSrc2) = some w := by
    unfold upperProduct
    rcases hmnem with hmnem | hmnem | hmnem
    · exact ⟨_, by rw [hmnem]⟩
    · exact ⟨_, by rw [hmnem]⟩
    · exact ⟨_, by rw [hmnem]⟩
  rw [productExact_iff, hw, hresult, Option.some.injEq]
  exact upperProduct_assigns hemit hw hrs1 hrs2 hrd hrep

end Claims

/-! ## A failing input -/

/-- `MULH x6, x5, x5`. -/
def mulhX5 : RiscInstr := ⟨0x1000#64, .mulh, .regReg, 5, 5, 6, 0#64⟩

/-- A register is loaded into a replacement. -/
def loadNoted (r : RegisterInfo) (i : Fin 3) (reg : Nat) : RegisterInfo :=
  r.tick.note i reg r.tick.currentRecency

/-- A block after `ADD x7, x28, x29`. -/
def afterAdd : EmitState :=
  { blockStart with
    gen := ⟨loadNoted (loadNoted (loadNoted (TransState.initial 0#64).rInfo 0 28) 1 29) 2 7, false⟩
      }

theorem afterAdd_wellFormed : afterAdd.gen.rInfo.WellFormed := by
  have hax : (loadNoted (TransState.initial 0#64).rInfo 0 28).WellFormed :=
    (wellFormed_initial 0#64).load 0 (by decide) fun _ j _ => by
      revert j
      decide
  have hdx : (loadNoted (loadNoted (TransState.initial 0#64).rInfo 0 28) 1 29).WellFormed :=
    hax.load 1 (by decide) fun _ => by decide
  exact hdx.load 2 (by decide) fun _ => by decide

/-- A host in which `x5` lies in its slot and is `-2 ^ 63`, and all other registers are zero. -/
def twoTo63Host : HostState :=
  ⟨fun _ => 0#64, none, fun c => if c = .gp 5 then BitVec.intMin 64 else 0#64, fun _ => 0#8, []⟩

/-- The guest that it represents. -/
def twoTo63Guest : GuestState := ⟨regValue afterAdd.gen.rInfo twoTo63Host, fun _ => 0#8⟩

theorem twoTo63_represented : Represents x0 twoTo63Guest afterAdd.gen.rInfo twoTo63Host :=
  represents_self afterAdd_wellFormed _

theorem mulHigh_assigns_iff_by_zero :
    Assigns unfused (Emit.lift (translateMULH { mulhX5 with regSrc2 := 7 } unfused.flags)) afterAdd
        twoTo63Guest twoTo63Host 6 0#64 ↔
      ProductExact twoTo63Guest afterAdd.gen.rInfo twoTo63Host { mulhX5 with regSrc2 := 7 } :=
  mulHigh_assigns_iff (.inl rfl)
    (show mulDivEmitter { mulhX5 with regSrc2 := 7 }.mnem = some _ from rfl) rfl (by decide)
    (by decide) (by decide) twoTo63_represented

/-- The square of `-2 ^ 63` is `2 ^ 126`, but `AX` was left with what `CX` held,
    the zero of `x7`. -/
theorem mulHigh_displaced :
    ¬ ∀ (env : Env) (instr : RiscInstr) (emitter : Env → RiscInstr → Emit Unit) (s : EmitState)
      (g : GuestState) (h : HostState) (v : BitVec 64),
      instr.mnem = .mulh ∨ instr.mnem = .mulhsu ∨ instr.mnem = .mulhu →
      mulDivEmitter instr.mnem = some emitter →
      instr.mulDivResult (g.read instr.regSrc1) (g.read instr.regSrc2) = some v →
      instr.regSrc1 < 32 → instr.regSrc2 < 32 → instr.regDest < 32 →
      Represents x0 g s.gen.rInfo h → Assigns env (emitter env instr) s g h instr.regDest v := by
  intro hall
  have hassigns := hall unfused mulhX5 _ afterAdd twoTo63Guest twoTo63Host _ (.inl rfl) rfl rfl
    (by decide) (by decide) (by decide) twoTo63_represented
  have hvalue := (upperProduct_assigns (show mulDivEmitter mulhX5.mnem = some _ from rfl) rfl
    (by decide) (by decide) (by decide) twoTo63_represented).1 hassigns
  exact absurd hvalue (by decide)

end RiaJit.Translate
