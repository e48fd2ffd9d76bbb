import RiaJit.Gen.AtomicCode

/-!
# Minima and maxima

The atomic minima and maxima keep the old value in the stack pointer and the new one in `DX`,
which holds `rs2` before. The address stays in the host register of `rs1`, so it must not be
`DX`, nor a register whose content is moved to `DX`.
-/

set_option autoImplicit false

namespace RiaJit.Translate

open EmitLogic X86

/-- The host register that `getRs1` returns keeps its value while `rs2` is forced into `DX`:
it is one of the guest register's own, or a replacement that neither is `DX` nor has the value
that goes there. -/
def KeepsAddress (r : RegisterInfo) (instr : RiscInstr) : Prop :=
  gpMap instr.regSrc1 ≠ none ∨ chosen r instr.regSrc1 ≠ 1 ∧ instr.regSrc1 ≠ instr.regSrc2

/-! ## The operands -/

section Operands

variable {g : GuestState} {r r₁ r' : RegisterInfo} {h h₁ h' : HostState} {e : Bool} {x y : Nat}
  {R : FeReg} {i : Fin 3} (flags : Flags)

/-- An operand that was fetched before another is forced into the replacement `i`. -/
theorem Operand.beforeInto (ho : Operand g r h R x 0)
    (hlies : gpMap x = some R ∨ ∃ j, j ≠ i ∧ R = getRegForIndex j ∧ r.replacementContent j = x ∧
      x ≠ y)
    (hplaced : Placed r h y true i r' h' ∨ Copied r h y i r' h') : Operand g r' h' R x 1 := by
  obtain ⟨hpin, hval⟩ := ho
  rcases hlies with hmap | ⟨j, hji, rfl, hj, hxy⟩
  · -- a register of its own is no replacement
    refine ⟨.inl hmap, ?_⟩
    rcases hplaced with hp | hc
    · exact (hp.frame.reg R (gpMap_ne_replacement hmap)).trans hval
    · exact (hc.frame.reg R (gpMap_ne_replacement hmap)).trans hval
  · -- a replacement that is not the chosen one: it is young enough to survive the next load
    have hyoung : r.currentRecency ≤ r.replacementRecency j := by
      rcases hpin with hmap | ⟨k, hk, -, hrec⟩
      · exact absurd rfl (gpMap_ne_replacement hmap j)
      · rw [getRegForIndex_injective hk]
        exact hrec
    rcases hplaced with hp | hc
    · have hother : r.replacementContent j ≠ y := by
        rw [hj]
        exact hxy
      obtain ⟨hcontent, hrecency, hreg⟩ := hp.others j hji hother
      refine ⟨.inr ⟨j, rfl, hcontent.trans hj, ?_⟩, hreg.trans hval⟩
      rw [hp.current, hrecency]
      omega
    · refine ⟨.inr ⟨j, rfl, ?_, ?_⟩, (hc.others j hji).trans hval⟩
      · rw [hc.content, Function.update_of_ne hji]
        exact hj
      · rw [hc.recency, Function.update_of_ne hji, hc.current]
        omega

/-- What holds when `rs1`, `rs2` and `rd` have been fetched. -/
structure Chosen (g : GuestState) (instr : RiscInstr) (h : HostState) (R1 Rd : FeReg)
    (r' : RegisterInfo) (h' : HostState) : Prop where
  rep : Represents instr.regDest g r' h'
  outside : Outside h h'
  located : Located r' Rd instr.regDest
  second : h'.reg .dx = g.read instr.regSrc2
  ne_sp : R1 ≠ .sp

/-- The three operands of a minimum or maximum: the address is kept, or it was in `DX`. -/
theorem selectOperands_runs {instr : RiscInstr} (hrep : Represents x0 g r h)
    (hrs1 : instr.regSrc1 < 32) (hrs2 : instr.regSrc2 < 32) (hrd : instr.regDest < 32) :
    ∃ R1 r₁ h₁ r₂ h₂ Rd r₃ h₃, RunsOn (getRs1 flags instr) ⟨r, e⟩ h R1 ⟨r₁, e⟩ h₁ ∧
      RunsOn (getRs2Into flags instr 1) ⟨r₁, e⟩ h₁ .dx ⟨r₂, e⟩ h₂ ∧
      RunsOn (getRd flags instr) ⟨r₂, e⟩ h₂ Rd ⟨r₃, e⟩ h₃ ∧ Chosen g instr h R1 Rd r₃ h₃ ∧
      (KeepsAddress r instr → R1 ≠ .dx ∧ h₃.reg R1 = g.read instr.regSrc1) ∧
      (gpMap instr.regSrc1 = none → chosen r instr.regSrc1 = 1 → R1 = .dx) := by
  obtain ⟨R1, r₁, h₁, hrun₁, hf₁, ho₁, hlies⟩ := getSrc_lies (e := e) flags hrep hrs1
  obtain ⟨k, r₂, h₂, hrun₂, hcount, hplaced⟩ :=
    getSrcInto_runs (h := h₁) (e := e) flags hf₁.rep.wf hrs2 1
  have hsecond : Represents x0 g r₂ h₂ ∧ Operand g r₂ h₂ .dx instr.regSrc2 0 ∧ Frame h₁ h₂ := by
    rcases hplaced with ⟨hmap, hp⟩ | ⟨hmap, hc⟩
    · obtain ⟨hrep₂, ho₂⟩ := hp.operand (hcount.represents hf₁.rep) hrs2 hmap
      exact ⟨hrep₂, ho₂, hcount.frame.trans hp.frame⟩
    · obtain ⟨hrep₂, ho₂⟩ := hc.operand (hcount.represents hf₁.rep) hrs2 hmap
      exact ⟨hrep₂, ho₂, hcount.frame.trans hc.frame⟩
  obtain ⟨hrep₂, ho₂, hframe₂⟩ := hsecond
  obtain ⟨Rd, r₃, h₃, hrun₃, hf₃, hloc⟩ := getRd_runs (e := e) flags hrep₂ hrd
  refine ⟨R1, r₁, h₁, r₂, h₂, Rd, r₃, h₃, hrun₁, hrun₂, hrun₃, ⟨hf₃.rep,
    hf₁.outside.trans (hframe₂.outside.trans hf₃.outside), hloc,
    (hf₃.operands .dx _ 0 (Nat.zero_le 1) hrs2 ho₂).2, ho₁.1.ne_sp⟩, ?_, ?_⟩
  · intro hkeeps
    -- the address lies apart from `DX`, which takes the second operand
    have hapart : gpMap instr.regSrc1 = some R1 ∨ ∃ j, j ≠ 1 ∧ R1 = getRegForIndex j ∧
        r₁.replacementContent j = instr.regSrc1 ∧ instr.regSrc1 ≠ instr.regSrc2 := by
      rcases hlies with hmap | ⟨hmap, hR, hcontent⟩
      · exact .inl hmap
      · rcases hkeeps with hmapped | ⟨hchosen, hxy⟩
        · exact absurd hmap hmapped
        · exact .inr ⟨_, hchosen, hR, hcontent, hxy⟩
    have hkept : Operand g r₂ h₂ R1 instr.regSrc1 1 := by
      apply (hcount.operand ho₁).beforeInto hapart
      rcases hplaced with ⟨-, hp⟩ | ⟨-, hc⟩
      · exact .inl hp
      · exact .inr hc
    refine ⟨?_, (hf₃.operands R1 _ 1 (Nat.le_refl 1) hrs1 hkept).2⟩
    rcases hapart with hmap | ⟨j, hj, rfl, -⟩
    · exact gpMap_ne_replacement hmap 1
    · exact fun heq => hj (getRegForIndex_injective heq)
  · intro hnone hchosen
    rcases hlies with hmap | ⟨-, hR, -⟩
    · rw [hnone] at hmap
      cases hmap
    · rw [hR, hchosen]
      rfl

end Operands

/-! ## The host while the old value is in the stack pointer -/

/-- The stack pointer lies in the scratch slot, and `old` is in its place. -/
def aside (h : HostState) (old : BitVec 64) (fl : Option X86Flags) : HostState :=
  { h with
    reg := Function.update h.reg .sp old
    cell := Function.update h.cell swapScratch (h.reg .sp)
    flags := fl }

section Aside

variable {g : GuestState} {r : RegisterInfo} {h : HostState} {e : Bool} {d : Nat} {R : FeReg}
  {old : BitVec 64} {fl : Option X86Flags}

theorem aside_reg {Q : FeReg} (hQ : Q ≠ .sp) : (aside h old fl).reg Q = h.reg Q :=
  Function.update_of_ne hQ ..

theorem aside_sp : (aside h old fl).reg .sp = old := h.reg_setReg_self .sp old

/-- A replacement is written back in the meantime as it would be before. -/
theorem writtenBack_aside (i : Fin 3) :
    writtenBack r (aside h old fl) i = aside (writtenBack r h i) old fl := by
  unfold writtenBack
  split
  · show (aside h old fl).setCell _ ((aside h old fl).reg (getRegForIndex i)) =
      aside (h.setCell _ (h.reg (getRegForIndex i))) old fl
    rw [aside_reg (getRegForIndex_ne_sp i)]
    unfold aside HostState.setCell
    simp only [HostState.mk.injEq, true_and, and_true]
    exact Function.update_comm (by simp [swapScratch]) ..
  · rfl

/-- `DX` is given up, unless it is where `rd` lies. -/
theorem giveUpSecond_runs (old : BitVec 64) (fl : Option X86Flags) (hrep : Represents d g r h)
    (hloc : Located r R d) :
    ∃ r' k, RunsOn (onlyIf (R ≠ .dx) (invalidateReplacement 1)) ⟨r, e⟩ (aside h old fl) ()
        ⟨r', e⟩ (aside k old fl) ∧
      Represents d g r' k ∧ Located r' R d ∧ Outside h k ∧ k.reg = h.reg ∧
      (r'.replacementContent 1 = invalidReg ∨ r'.replacementContent 1 = d) := by
  -- `rd` lies in `DX` where it is `rs2`, which then is overwritten anyway
  by_cases hR : R = .dx
  · refine ⟨r, h, runs_onlyIf_neg fun hne => hne hR, hrep, hloc, Outside.refl h, rfl, .inr ?_⟩
    rcases hloc with hmap | ⟨-, i, rfl, hi⟩
    · exact absurd hR (gpMap_ne_replacement hmap 1)
    · obtain rfl : i = 1 := getRegForIndex_injective hR
      exact hi
  · refine ⟨_, writtenBack r h 1, runs_onlyIf_pos hR ?_, hrep.invalidate 1, ?_,
      (frame_writtenBack hrep.wf 1).outside, writtenBack_reg 1, .inl ?_⟩
    · rw [← writtenBack_aside]
      exact invalidateReplacement_runs r (aside h old fl) e 1
    · rcases hloc with hmap | ⟨hmap, i, rfl, hi⟩
      · exact .inl hmap
      · refine .inr ⟨hmap, i, rfl, ?_⟩
        have hi1 : i ≠ 1 := fun h => hR (by rw [h]; rfl)
        show Function.update r.replacementContent 1 invalidReg i = d
        rw [Function.update_of_ne hi1, hi]
    · show Function.update r.replacementContent 1 invalidReg 1 = invalidReg
      exact Function.update_self ..

/-- A replacement that holds nothing but the destination may be overwritten. -/
theorem Represents.setReplacement (hrep : Represents d g r h) {i : Fin 3}
    (hfree : r.replacementContent i = invalidReg ∨ r.replacementContent i = d) (v : BitVec 64) :
    Represents d g r (h.setReg (getRegForIndex i) v) := by
  have hs := (writes_setReg h (getRegForIndex i) v).scratches
  refine ⟨hrep.wf, fun y hy hyd hlt => ?_, hrep.mem⟩
  rw [← hrep.regs y hy hyd hlt]
  apply hs.value
  · intro j hj hyj
    rw [getRegForIndex_injective hj] at hyj
    rcases hfree with hinvalid | hdest
    · rw [hinvalid] at hyj
      unfold invalidReg at hyj
      omega
    · exact hyd (hyj.symm.trans hdest)
  · intro mapped hmap heq
    exact gpMap_ne_replacement hmap i heq

end Aside

/-! ## The selection -/

section Selection

variable {f : AmoFunction} {cond : Cond} {size : MemSize} {h : HostState}

/-- A condition under which the first of two compared values is the result. -/
def Selects (cond : Cond) (f : AmoFunction) : Prop :=
  ∀ {w : Nat} (a b : BitVec w), (if cond.holds (cmpFlags a b) then a else b) = f.eval a b

theorem selects_min : Selects .l .min := fun a b => by
  rw [holds_l]
  rfl

theorem selects_max : Selects .g .max := fun a b => by
  rw [holds_g]
  rfl

theorem selects_minu : Selects .c .minu := fun a b => by
  rw [holds_c]
  rfl

theorem selects_maxu : Selects .a .maxu := fun a b => by
  rw [holds_a]
  rfl

/-- The flags of the comparison of the low parts. -/
def lowFlags (size : MemSize) (a b : BitVec 64) : X86Flags :=
  cmpFlags (a.setWidth (8 * size.bytes)) (b.setWidth (8 * size.bytes))

theorem exec_compareRegs (hsize : size = .m32 ∨ size = .m64) (a b : FeReg) :
    (compareRegs size a b).exec h =
      some { h with flags := some (lowFlags size (h.reg a) (h.reg b)) } := by
  rcases hsize with rfl | rfl
  · rfl
  · show some { h with flags := some (cmpFlags (h.reg a) (h.reg b)) } = some { h with
      flags := some (cmpFlags ((h.reg a).setWidth 64) ((h.reg b).setWidth 64)) }
    rw [BitVec.setWidth_eq, BitVec.setWidth_eq]

/-- What the conditional move leaves in `DX`. -/
def selected (cond : Cond) (size : MemSize) (old src : BitVec 64) : BitVec 64 :=
  sized (operandSize size) (fun a _ => a)
    (if cond.holds (lowFlags size old src) then old else src) 0#64

/-- Its low part is the minimum or maximum. -/
theorem selected_low (hselects : Selects cond f) (hsize : size = .m32 ∨ size = .m64)
    (old src : BitVec 64) : (selected cond size old src).setWidth (8 * size.bytes) =
      (f.apply size old src).setWidth (8 * size.bytes) := by
  rw [f.apply_low, ← hselects]
  unfold selected lowFlags
  rcases hsize with rfl | rfl
  · show (sized .s32 (fun a _ => a) _ 0#64).setWidth 32 = _
    rw [setWidth_sized]
    split
    · rfl
    · rfl
  · show (sized .s64 (fun a _ => a) _ 0#64).setWidth 64 = _
    split
    · rfl
    · rfl

/-- The effect of the code where the register of `rs1` holds `la` when the old value is loaded,
and `sa` when the new one is stored. -/
def selectAt (instr : RiscInstr) (size : MemSize) (cond : Cond) (la sa : BitVec 64)
    (g : GuestState) : GuestState :=
  { g with
    mem := g.mem.store size sa
      (selected cond size (g.mem.load size la) (g.read instr.regSrc2)) }.write
    instr.regDest (g.mem.loadSigned size la)

/-- With the address in `rs1` at both times this is the operation. -/
theorem selectAt_amo (hselects : Selects cond f) (hsize : size = .m32 ∨ size = .m64)
    (instr : RiscInstr) (g : GuestState) :
    selectAt instr size cond (g.read instr.regSrc1) (g.read instr.regSrc1) g =
      instr.amo f size g := by
  unfold selectAt
  rw [Memory.store_congr (selected_low hselects hsize _ _)]
  rfl

/-- The conditional move and the store. -/
theorem select_exec (size : MemSize) (cond : Cond) {R : FeReg} (hsp : R ≠ .sp) (old : BitVec 64)
    (fl : X86Flags) (v : BitVec 64) (hfl : fl = lowFlags size old (h.reg .dx))
    (hv : v = selected cond size old (h.reg .dx)) :
    ∃ k, (FeInstr.cmovrr cond (operandSize size) .dx scratchReg).exec (aside h old (some fl)) =
        some ((aside h old (some fl)).setReg .dx v) ∧
      (FeInstr.movmr size (memAt R 0#64) .dx).exec ((aside h old (some fl)).setReg .dx v) =
        some k ∧
      Scratched (h.setReg .dx v)
        (h.mem.store size (if R = .dx then v else h.reg R) v) old k := by
  have hne : FeReg.sp ≠ .dx := by decide
  refine ⟨{ (aside h old (some fl)).setReg .dx v with
    mem := h.mem.store size (if R = .dx then v else h.reg R) v }, ?_, ?_, fun Q hQ => ?_, ?_, ?_,
    rfl, rfl⟩
  · show some ((aside h old (some fl)).setReg .dx (sized (operandSize size) (fun a _ => a)
      (if cond.holds fl then (aside h old (some fl)).reg .sp
        else (aside h old (some fl)).reg .dx) 0#64)) = _
    rw [aside_sp, aside_reg hne.symm, hfl, hv]
    rfl
  · -- the address is read after the conditional move has written `DX`
    have haddress : ((aside h old (some fl)).setReg .dx v).reg R =
        if R = .dx then v else h.reg R := by
      split
      · rename_i hR
        rw [hR, HostState.reg_setReg_self]
      · rename_i hR
        rw [HostState.reg_setReg_of_ne _ hR, aside_reg hsp]
    rw [exec_movmr_memAt, HostState.reg_setReg_self, haddress]
    rfl
  · show Function.update (Function.update h.reg .sp old) .dx v Q = Function.update h.reg .dx v Q
    rw [Function.update_comm hne, Function.update_of_ne hQ]
  · show ((aside h old (some fl)).setReg .dx v).reg .sp = old
    rw [HostState.reg_setReg_of_ne _ hne, aside_sp]
  · show Function.update h.cell swapScratch (h.reg .sp) = _
    rw [HostState.reg_setReg_of_ne _ hne]
    rfl

end Selection

section Runs

variable {g : GuestState} {r : RegisterInfo} {h : HostState} (e : Bool) (flags : Flags)
  {instr : RiscInstr} {f : AmoFunction} {size : MemSize} {cond : Cond}

/-- What the code does in any state: `DX` holds `rs2`, then the new value. -/
theorem translateAmoSelect_effect (cond : Cond) (hsize : size = .m32 ∨ size = .m64)
    (hrep : Represents x0 g r h) (hrs1 : instr.regSrc1 < 32) (hrs2 : instr.regSrc2 < 32)
    (hrd : instr.regDest < 32) :
    ∃ (R1 : FeReg) (la : BitVec 64) (r' : RegisterInfo) (h' : HostState),
      RunsOn (translateAmoSelect flags instr size cond) ⟨r, e⟩ h () ⟨r', e⟩ h' ∧
      Represents x0 (selectAt instr size cond la (if R1 = .dx
        then selected cond size (g.mem.load size la) (g.read instr.regSrc2) else la) g) r' h' ∧
      Beside h h' ∧ (R1 = .dx → la = g.read instr.regSrc2) ∧
      (KeepsAddress r instr → R1 ≠ .dx ∧ la = g.read instr.regSrc1) ∧
      (gpMap instr.regSrc1 = none → chosen r instr.regSrc1 = 1 → R1 = .dx) := by
  obtain ⟨R1, r₁, h₁, r₂, h₂, Rd, r₃, h₃, hrun₁, hrun₂, hrun₃, hc, hkeeps, hindx⟩ :=
    selectOperands_runs (e := e) flags hrep hrs1 hrs2 hrd
  let la := h₃.reg R1
  let old := g.mem.load size la
  let fl := lowFlags size old (g.read instr.regSrc2)
  let v := selected cond size old (g.read instr.regSrc2)
  -- the old value is loaded and compared with `rs2`
  let k : HostState := h₃.setCell swapScratch (h₃.reg .sp)
  have hload : (FeInstr.movrm size scratchReg (memAt R1 0#64)).exec k =
      some (k.setReg .sp old) := by
    rw [exec_movrm_memAt]
    show some (k.setReg .sp (h₃.mem.load size la)) = _
    rw [hc.rep.mem]
  have hencodable : (compareRegs size scratchReg .dx).encodable = true := by
    rcases hsize with rfl | rfl
    · rfl
    · rfl
  have hcompare : (compareRegs size scratchReg .dx).exec (k.setReg .sp old) =
      some (aside h₃ old (some fl)) := by
    have hreg : (k.setReg .sp old).reg scratchReg = old := k.reg_setReg_self .sp old
    have hother : (k.setReg .sp old).reg .dx = g.read instr.regSrc2 :=
      (k.reg_setReg_of_ne (by decide) old).trans hc.second
    rw [exec_compareRegs hsize, hreg, hother]
    rfl
  obtain ⟨r₄, h₄, hrun₄, hrep₄, hloc₄, hout₄, hreg₄, hfree⟩ :=
    giveUpSecond_runs (e := e) old (some fl) hc.rep hc.located
  -- the new value replaces `rs2` in `DX` and is stored
  have hsecond : h₄.reg .dx = g.read instr.regSrc2 := by rw [hreg₄, hc.second]
  have hmem : h₄.mem = g.mem := hrep₄.mem
  obtain ⟨k', hselect, hstore, hs⟩ :=
    select_exec (h := h₄) size cond hc.ne_sp old fl v (by rw [hsecond]) (by rw [hsecond])
  rw [hreg₄, hmem] at hs
  obtain ⟨h', hrun', hrep', hbeside⟩ :=
    amoEnd_runs hsize hrd (hrep₄.setReplacement (i := 1) hfree v) hloc₄ hs e
  have hout₅ : Outside h₄ (h₄.setReg .dx v) :=
    ⟨rfl, HostState.reg_setReg_of_ne _ (by decide) _, fun _ _ => rfl⟩
  refine ⟨R1, la, r₄, h', hrun₁.bind (hrun₂.bind (hrun₃.bind (.bind (runs_feEnc64 rfl rfl)
      (.bind (runs_feEnc64 rfl hload) (.bind (runs_feEnc64 hencodable hcompare)
        (hrun₄.bind (.bind (runs_feEnc64 rfl hselect)
          (.bind (runs_feEnc64 rfl hstore) hrun')))))))), hrep',
    (hc.outside.trans (hout₄.trans hout₅)).beside.trans hbeside, ?_, hkeeps, hindx⟩
  intro hR
  show h₃.reg R1 = _
  rw [hR, hc.second]

/-- The minima and maxima are performed where the host register of `rs1` keeps the address. -/
theorem translateAmoSelect_runs (hsize : size = .m32 ∨ size = .m64) (hselects : Selects cond f)
    (hrep : Represents x0 g r h) (hkeeps : KeepsAddress r instr) (hrs1 : instr.regSrc1 < 32)
    (hrs2 : instr.regSrc2 < 32) (hrd : instr.regDest < 32) :
    ∃ r' h', RunsOn (translateAmoSelect flags instr size cond) ⟨r, e⟩ h () ⟨r', e⟩ h' ∧
      Represents x0 (instr.amo f size g) r' h' ∧ Beside h h' := by
  obtain ⟨R1, la, r', h', hrun, hrep', hbeside, -, hkept, -⟩ :=
    translateAmoSelect_effect e flags cond hsize hrep hrs1 hrs2 hrd
  obtain ⟨hR, rfl⟩ := hkept hkeeps
  rw [if_neg hR, selectAt_amo hselects hsize] at hrep'
  exact ⟨r', h', hrun, hrep', hbeside⟩

/-- Where `rs1` is in `DX` or is loaded there, the address is lost: the old value is the word
that `rs2` points to, and the new one is stored at the address that it is itself. -/
theorem translateAmoSelect_loses_address (hsize : size = .m32 ∨ size = .m64)
    (hrep : Represents x0 g r h) (hnone : gpMap instr.regSrc1 = none)
    (hdx : chosen r instr.regSrc1 = 1) (hrs1 : instr.regSrc1 < 32) (hrs2 : instr.regSrc2 < 32)
    (hrd : instr.regDest < 32) :
    ∃ r' h', RunsOn (translateAmoSelect flags instr size cond) ⟨r, e⟩ h () ⟨r', e⟩ h' ∧
      Represents x0 (selectAt instr size cond (g.read instr.regSrc2) (selected cond size
        (g.mem.load size (g.read instr.regSrc2)) (g.read instr.regSrc2)) g) r' h' := by
  obtain ⟨R1, la, r', h', hrun, hrep', -, hla, -, hR⟩ :=
    translateAmoSelect_effect e flags cond hsize hrep hrs1 hrs2 hrd
  obtain rfl := hR hnone hdx
  obtain rfl := hla rfl
  rw [if_pos rfl] at hrep'
  exact ⟨r', h', hrun, hrep'⟩

/-- A register cache in which `DX` holds `t0`, and nothing else is held. -/
def secondHeld : RegisterInfo :=
  ⟨fun i => if i = 1 then 5 else invalidReg, fun i => if i = 1 then 1 else 0, 1⟩

theorem secondHeld_wellFormed : secondHeld.WellFormed :=
  ⟨by decide, by decide, by decide, by decide, by decide⟩

/-- A host on which `t0` is `0x2000`, `t1` is `0x3000` and memory is zero. -/
def addressHost : HostState :=
  ⟨fun R => if R = .dx then 0x2000#64 else 0#64, none,
    fun c => if c = .gp 6 then 0x3000#64 else 0#64, fun _ => 0#8, []⟩

/-- `amomin.w a0, t1, (t0)`. -/
def minimumAtT0 : RiscInstr :=
  { RiscInstr.ofAddr 0x1000#64 with
    mnem := .amominw, optype := .regReg, regSrc1 := 5, regSrc2 := 6, regDest := 10 }

theorem translateAmoSelect_loses_address_minimumAtT0 :
    ∃ r' h', RunsOn (translateAMOMINW {} minimumAtT0) ⟨secondHeld, false⟩ addressHost ()
        ⟨r', false⟩ h' ∧
      Represents x0 (selectAt minimumAtT0 .m32 .l 0x3000#64 0#64
        ⟨regValue secondHeld addressHost, addressHost.mem⟩) r' h' :=
  translateAmoSelect_loses_address false {} (.inl rfl)
    (represents_self secondHeld_wellFormed addressHost) rfl (by decide) (by decide) (by decide)
    (by decide)

end Runs

end RiaJit.Translate
