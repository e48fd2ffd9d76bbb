import RiaJit.Gen.ConstantFusion

/-!
# The fusion of a constant with a zero extension

`emit_pattern_9` leaves out the copy that its second instruction makes.
-/

set_option autoImplicit false

namespace RiaJit.Translate

open EmitLogic X86

/-- `{p_9_elem, 4, &emit_pattern_9}` of `patterns`. -/
def pattern9 : Pattern := ⟨p9Elem, 4, some .emitPattern9⟩

theorem pattern9_mem : pattern9 ∈ patterns := by decide

/-- Four instructions that `p_9_elem` accepts. -/
structure UpperCopy (lui addi slli srli : RiscInstr) : Prop where
  lui_mnem : lui.mnem = .lui
  addi_mnem : addi.mnem = .addi
  slli_mnem : slli.mnem = .slli
  srli_mnem : srli.mnem = .srli
  addi_rs1 : addi.regSrc1 = lui.regDest
  addi_rd : addi.regDest ≠ lui.regDest
  addi_imm : addi.imm = 0#64
  slli_rs1 : slli.regSrc1 ≠ addi.regDest
  slli_rd : slli.regDest = lui.regDest
  slli_imm : slli.imm = 32#64
  srli_accumulates : Accumulates slli srli
  srli_imm : srli.imm = 32#64

section Matching

variable {block : List RiscInstr} {j : Nat} {lui addi slli srli : RiscInstr}

theorem isDestOf_eq_false {reg i : Nat} {other : RiscInstr} (hother : block[i]? = some other)
    (h : (isDestOf block reg i).map not = some true) : reg ≠ other.regDest := by
  unfold isDestOf at h
  rw [hother] at h
  intro heq
  rw [heq] at h
  simp at h

theorem Occurs.upperCopy (hocc : Occurs block pattern9 j)
    (hentries : window block pattern9 j = [lui, addi, slli, srli]) :
    UpperCopy lui addi slli srli := by
  have hwf := patterns_wellFormed pattern9_mem
  have hget : ∀ k : Nat, (window block pattern9 j)[k]? = [lui, addi, slli, srli][k]? := fun k => by
    rw [hentries]
  have h0 : (window block pattern9 j)[0 + 0]? = some lui := hget 0
  have h1 : (window block pattern9 j)[0 + 1]? = some addi := hget 1
  have h2 : (window block pattern9 j)[0 + 2]? = some slli := hget 2
  obtain ⟨hlui, -⟩ := hocc.element hwf (k := 0) rfl (hget 0)
  obtain ⟨haddi, hbase, -, hcopy, hzero⟩ := hocc.element hwf (k := 1) rfl (hget 1)
  obtain ⟨hslli, hsource, -, hback, hleft⟩ := hocc.element hwf (k := 2) rfl (hget 2)
  obtain ⟨hsrli, hsame, -, hdest, hright⟩ := hocc.element hwf (k := 3) rfl (hget 3)
  exact ⟨hlui.symm, haddi.symm, hslli.symm, hsrli.symm, isDestOf_eq_true h0 hbase,
    isDestOf_eq_false h0 hcopy, imm_of_match hzero rfl, isDestOf_eq_false h1 hsource,
    isDestOf_eq_true h0 hback, imm_of_match hleft rfl,
    ⟨isDestOf_eq_true h2 hsame, isDestOf_eq_true h2 hdest⟩, imm_of_match hright rfl⟩

end Matching

/-! ## What the instructions do -/

section Meaning

variable (g : GuestState) (lui addi slli : RiscInstr)

/-- The guest after `LUI`. -/
def upperLoaded : GuestState := g.write lui.regDest lui.imm

/-- The guest after `LUI`, `SLLI` and `SRLI`. -/
def extendedOnly : GuestState :=
  (upperLoaded g lui).write lui.regDest (((upperLoaded g lui).read slli.regSrc1 <<< 32) >>> 32)

/-- The guest after all four instructions. -/
def copiedAndExtended : GuestState :=
  ((upperLoaded g lui).write addi.regDest ((upperLoaded g lui).read lui.regDest)).write lui.regDest
    (((upperLoaded g lui).read slli.regSrc1 <<< 32) >>> 32)

end Meaning

section Fused

variable (flags : Flags) {g : GuestState} {r : RegisterInfo} {h : HostState} {e : Bool}
  {lui addi slli srli : RiscInstr}

theorem UpperCopy.stepAll (hu : UpperCopy lui addi slli srli) (g : GuestState) :
    stepAll [lui, addi, slli, srli] g = copiedAndExtended g lui addi slli := by
  have h₁ : g.step lui = upperLoaded g lui := by
    refine step_of_aluResult ?_
    unfold RiscInstr.aluResult
    rw [hu.lui_mnem]
  have hadd : ∀ x y, addi.aluResult x y = some (x + addi.imm) := fun x y => by
    unfold RiscInstr.aluResult
    rw [hu.addi_mnem]
  let g₁ := upperLoaded g lui
  let g₂ := g₁.write addi.regDest (g₁.read lui.regDest)
  have h₂ : g₁.step addi = g₂ := by
    rw [step_alu hadd, hu.addi_rs1, hu.addi_imm, BitVec.add_zero]
  have hread : g₂.read slli.regSrc1 = g₁.read slli.regSrc1 := by
    rw [read_write, if_neg hu.slli_rs1, read_eq]
  show (((g.step lui).step addi).step slli).step srli = _
  rw [h₁, h₂, step_alu (step_slli hu.slli_mnem),
    hu.srli_accumulates.step (step_srli hu.srli_mnem), hu.slli_imm, hu.srli_imm, hread, hu.slli_rd]
  rfl

/-- The fused code moves the constant and extends, but copies nothing. -/
theorem UpperCopy.emitPattern9_runs (hu : UpperCopy lui addi slli srli) (hrs1 : slli.regSrc1 < 32)
    (hrd : lui.regDest < 32) (hrep : Represents x0 g r h) :
    ∃ r' h', RunsOn (emitPattern9 flags lui slli srli) ⟨r, e⟩ h () ⟨r', e⟩ h' ∧
      Represents x0 (extendedOnly g lui slli) r' h' ∧ Outside h h' := by
  have hdest : srli.regDest = lui.regDest := hu.srli_accumulates.rd.trans hu.slli_rd
  obtain ⟨Rd, r₁, h₁, hrun₁, hf₁, hloc⟩ := getRd_runs (e := e) flags hrep hrd
  have hw : Writes h₁ (h₁.setReg Rd lui.imm) Rd lui.imm := writes_setReg ..
  have hrep₂ : Represents x0 (upperLoaded g lui) r₁ (h₁.setReg Rd lui.imm) :=
    hf₁.rep.write hloc hrd hw
  obtain ⟨r₃, h₃, hrun₃, hrep₃, hout₃⟩ :=
    simulates_zeroExtend flags hrs1 (by rwa [hdest]) _ _ _ e hrep₂
  rw [hdest] at hrep₃
  exact ⟨r₃, h₃, hrun₁.bind (.bind (runs_feEnc64 rfl rfl) hrun₃), hrep₃,
    hf₁.outside.trans ((hw.outside hloc).trans hout₃)⟩

theorem UpperCopy.reg_copied (hu : UpperCopy lui addi slli srli) (hx0 : addi.regDest ≠ x0) :
    (copiedAndExtended g lui addi slli).reg addi.regDest =
      if lui.regDest = x0 then 0#64 else lui.imm := by
  unfold copiedAndExtended upperLoaded
  rw [reg_write _ _ _ hx0, if_neg hu.addi_rd, reg_write _ _ _ hx0, if_pos rfl, read_write,
    if_pos rfl]

theorem UpperCopy.reg_extended (hu : UpperCopy lui addi slli srli) (hx0 : addi.regDest ≠ x0) :
    (extendedOnly g lui slli).reg addi.regDest = g.reg addi.regDest := by
  unfold extendedOnly upperLoaded
  rw [reg_write _ _ _ hx0, if_neg hu.addi_rd, reg_write _ _ _ hx0, if_neg hu.addi_rd]

/-- The copy is all that the guests differ in. -/
theorem reg_extended_of_ne {x : Nat} (hx0 : x ≠ x0) (hx : x ≠ addi.regDest) :
    (extendedOnly g lui slli).reg x = (copiedAndExtended g lui addi slli).reg x := by
  unfold extendedOnly copiedAndExtended
  rw [reg_write _ _ _ hx0, reg_write _ _ _ hx0]
  by_cases hd : x = lui.regDest
  · rw [if_pos hd, if_pos hd]
  · rw [if_neg hd, if_neg hd, reg_write _ _ _ hx0, if_neg hx]

/-- `emit_pattern_9` has the effect of the four instructions exactly where the destination of the
copy is `x0` or holds the constant already. -/
theorem emitPattern9_meaning_iff {block : List RiscInstr} {j : Nat}
    (hocc : Occurs block pattern9 j) (hentries : window block pattern9 j = [lui, addi, slli, srli])
    (hd : ∀ instr ∈ [lui, addi, slli, srli], instr.Decoded) (hrep : Represents x0 g r h) :
    FusedMeaning (emitPattern9 flags lui slli srli) [lui, addi, slli, srli] g ⟨r, e⟩ h ↔
      (addi.regDest ≠ x0 → g.reg addi.regDest = if lui.regDest = x0 then 0#64 else lui.imm) := by
  have hu := hocc.upperCopy hentries
  have hrd : lui.regDest < 32 := decoded_upper (hd lui (by simp)) (by rw [hu.lui_mnem]; rfl)
  obtain ⟨hrs1, -⟩ := decoded_shift (hd slli (by simp)) (by rw [hu.slli_mnem]; rfl)
  obtain ⟨-, hcopy, -⟩ := decoded_immediate (hd addi (by simp)) (by rw [hu.addi_mnem]; rfl)
  obtain ⟨r', h', hrun, hrep', hout⟩ := hu.emitPattern9_runs (e := e) flags hrs1 hrd hrep
  have hall := hu.stepAll g
  constructor
  · rintro ⟨r'', h'', hrun', hrep'', -⟩ hx0
    obtain ⟨-, hgen, rfl⟩ := hrun.unique hrun'
    obtain rfl : r' = r'' := congrArg GenState.rInfo hgen
    rw [hall] at hrep''
    have hsame := (hrep'.unique hrep'').1 addi.regDest hx0 hcopy
    rwa [hu.reg_extended hx0, hu.reg_copied hx0] at hsame
  · intro hheld
    refine ⟨r', h', hrun, ⟨hrep'.wf, fun x hx0 _ hlt => ?_, ?_⟩, hout⟩
    · rw [hall, hrep'.regs x hx0 hx0 hlt]
      by_cases hx : x = addi.regDest
      · subst hx
        rw [hu.reg_extended hx0, hu.reg_copied hx0, hheld hx0]
      · exact reg_extended_of_ne hx0 hx
    · rw [hall, hrep'.mem]
      unfold extendedOnly copiedAndExtended
      simp only [GuestState.write_mem]

end Fused

/-! ## A copy that is lost -/

/-- `LUI x5, 1`. -/
def upperPage : RiscInstr := ⟨0x10000#64, .lui, .upperImmediate, 0, 0, 5, 0x1000#64⟩

/-- `ADDI x6, x5, 0`. -/
def upperMove : RiscInstr := ⟨0x10004#64, .addi, .immediate, 5, 0, 6, 0#64⟩

/-- `SLLI x5, x5, 32`. -/
def upperLeft : RiscInstr := ⟨0x10008#64, .slli, .immediate, 5, 0, 5, 32#64⟩

/-- `SRLI x5, x5, 32`. -/
def upperRight : RiscInstr := ⟨0x1000c#64, .srli, .immediate, 5, 0, 5, 32#64⟩

/-- The four instructions as a block. -/
def upperBlock : List RiscInstr := [upperPage, upperMove, upperLeft, upperRight]

theorem upperBlock_occurs : Occurs upperBlock pattern9 0 := by
  unfold Occurs
  decide

theorem emitPattern9_meaning_iff_upper :
    FusedMeaning (emitPattern9 {} upperPage upperLeft upperRight) upperBlock zeroGuest
        ⟨(TransState.initial 0#64).rInfo, false⟩ zeroHost ↔
      (upperMove.regDest ≠ x0 → zeroGuest.reg upperMove.regDest =
        if upperPage.regDest = x0 then 0#64 else upperPage.imm) :=
  emitPattern9_meaning_iff {} upperBlock_occurs rfl (by decide) zero_represented

/-- The instructions leave `0x1000` in `x6`, the fused code zero. -/
theorem emitPattern9_loses_copy :
    ¬ ∀ (flags : Flags) (block : List RiscInstr) (j : Nat) (lui addi slli srli : RiscInstr)
      (g : GuestState) (r : RegisterInfo) (h : HostState), Occurs block pattern9 j →
      window block pattern9 j = [lui, addi, slli, srli] →
      (∀ instr ∈ [lui, addi, slli, srli], instr.Decoded) → Represents x0 g r h →
      FusedMeaning (emitPattern9 flags lui slli srli) [lui, addi, slli, srli] g ⟨r, false⟩ h := by
  intro hall
  obtain ⟨r', h', hrun, hrep, -⟩ := hall {} upperBlock 0 upperPage upperMove upperLeft upperRight
    zeroGuest _ zeroHost upperBlock_occurs rfl (by decide) zero_represented
  have hu := upperBlock_occurs.upperCopy rfl
  obtain ⟨r'', h'', hrun', hrep', -⟩ := hu.emitPattern9_runs (e := false) {} (by decide) (by decide)
    zero_represented
  obtain ⟨-, hgen, rfl⟩ := hrun.unique hrun'
  obtain rfl : r' = r'' := congrArg GenState.rInfo hgen
  have hmoved := (hrep.unique hrep').1 6 (by decide) (by decide)
  exact absurd hmoved (by decide)

end RiaJit.Translate
