import RiaJit.Gen.Loads

/-!
# Operands

What `getRs1`, `getRs2`, `getRd` and their variants give to the emitters: host registers
with the values of the operands, which later loads of the same instruction leave alone,
and a host register whose content becomes the value of the destination.
-/

set_option autoImplicit false

namespace RiaJit.Translate

open EmitLogic X86

/-! ## Representation -/

/-- The host represents the guest's registers, other than `d` and `x0`, and its memory. -/
structure Represents (d : Nat) (g : GuestState) (r : RegisterInfo) (h : HostState) : Prop where
  wf : r.WellFormed
  regs : ∀ y, y ≠ x0 → y ≠ d → y < 32 → regValue r h y = g.reg y
  mem : h.mem = g.mem

/-- What computations leave alone besides guest registers and guest memory. -/
structure Outside (h h' : HostState) : Prop where
  stack : h'.stack = h.stack
  sp : h'.reg .sp = h.reg .sp
  cell : ∀ c, ¬ isRegFile c → h'.cell c = h.cell c

/-- A host register that holds a guest register and is not among the next ones to be
taken: its own, or a replacement of one of the last `k + 1` loads. -/
def Pinned (r : RegisterInfo) (R : FeReg) (x k : Nat) : Prop :=
  gpMap x = some R ∨ ∃ i, R = getRegForIndex i ∧ r.replacementContent i = x ∧
    r.currentRecency ≤ r.replacementRecency i + k

/-- Where a guest register lies: in its own host register or in a replacement. -/
def Located (r : RegisterInfo) (R : FeReg) (x : Nat) : Prop :=
  gpMap x = some R ∨ gpMap x = none ∧ ∃ i, R = getRegForIndex i ∧ r.replacementContent i = x

/-- A host register with the value of a guest register, as `Pinned` says. -/
def Operand (g : GuestState) (r : RegisterInfo) (h : HostState) (R : FeReg) (x k : Nat) : Prop :=
  Pinned r R x k ∧ h.reg R = g.read x

section

variable {g : GuestState} {r r' r'' : RegisterInfo} {h h' h'' : HostState} {d x : Nat}

theorem Outside.refl (h : HostState) : Outside h h := ⟨rfl, rfl, fun _ _ => rfl⟩

theorem Outside.trans (h₁ : Outside h h') (h₂ : Outside h' h'') : Outside h h'' :=
  ⟨h₂.stack.trans h₁.stack, h₂.sp.trans h₁.sp, fun c hc => (h₂.cell c hc).trans (h₁.cell c hc)⟩

theorem Frame.outside (hf : Frame h h') : Outside h h' :=
  ⟨hf.stack, hf.reg .sp fun i => (getRegForIndex_ne_sp i).symm, hf.cell⟩

/-- A change of guest memory. -/
theorem Outside.of_mem (h : HostState) (mem : Memory) : Outside h { h with mem := mem } :=
  ⟨rfl, rfl, fun _ _ => rfl⟩

theorem Pinned.mono {R : FeReg} {k l : Nat} (hp : Pinned r R x k) (hkl : k ≤ l) :
    Pinned r R x l := by
  rcases hp with hmap | ⟨i, hR, hi, hrec⟩
  · exact .inl hmap
  · exact .inr ⟨i, hR, hi, by omega⟩

/-- With three replacements, one of the last two that were loaded is not the oldest. -/
theorem RegisterInfo.WellFormed.not_oldest (hr : r.WellFormed) {i : Fin 3}
    (hyoung : r.currentRecency ≤ r.replacementRecency i + 1)
    (hheld : r.replacementContent i ≠ invalidReg) :
    ∃ j, r.replacementRecency j < r.replacementRecency i := by
  by_contra hall
  have hle : ∀ j, r.replacementRecency i ≤ r.replacementRecency j := fun j => by
    by_contra hlt
    exact hall ⟨j, by omega⟩
  have hold : r.replacementRecency i ≠ 0 := fun h => hheld ((hr.empty i).1 h)
  have hdistinct : ∀ j k, j ≠ k → r.replacementRecency j ≠ r.replacementRecency k := by
    intro j k hjk heq
    refine hjk (hr.fresh j k heq ?_)
    have := hle j
    omega
  have h01 := hdistinct 0 1 (by decide)
  have h02 := hdistinct 0 2 (by decide)
  have h12 := hdistinct 1 2 (by decide)
  have b0 := hr.bound 0
  have b1 := hr.bound 1
  have b2 := hr.bound 2
  have l0 := hle 0
  have l1 := hle 1
  have l2 := hle 2
  omega

/-- A load leaves the operands of the last two loads alone. -/
theorem Loaded.operand {y : Nat} {required : Bool} {i : Fin 3} (hr : r.WellFormed)
    (hl : Loaded r h x required i r' h')
    (hchosen : r.replacementContent i = x ∨ ∀ j, r.replacementRecency i ≤ r.replacementRecency j)
    {R : FeReg} {k : Nat} (hk : k ≤ 1) (hy : y < 32) (ho : Operand g r h R y k) :
    Operand g r' h' R y (k + 1) := by
  obtain ⟨hmap | ⟨j, rfl, hj, hrec⟩, hval⟩ := ho
  · exact ⟨.inl hmap, by rw [hl.frame.reg R (gpMap_ne_replacement hmap), hval]⟩
  · by_cases hji : j = i
    · subst hji
      -- the oldest replacement is not one of the last two, so this one held `x` already
      have hjx : r.replacementContent j = x := by
        rcases hchosen with hjx | hold
        · exact hjx
        · obtain ⟨l, hl⟩ := hr.not_oldest (i := j) (by omega) (by rw [hj]; unfold invalidReg; omega)
          exact absurd (hold l) (by omega)
      obtain rfl : x = y := hjx.symm.trans hj
      refine ⟨.inr ⟨j, rfl, ?_, ?_⟩, ?_⟩
      · rw [hl.content, Function.update_self]
      · rw [hl.recency, Function.update_self]
        omega
      · rw [hl.present hjx]
        by_cases hx0 : x = x0
        · rw [if_pos hx0, hx0]
          rfl
        · rw [if_neg hx0, hval]
    · refine ⟨.inr ⟨j, rfl, ?_, ?_⟩, ?_⟩
      · rw [hl.content, Function.update_of_ne hji, hj]
      · rw [hl.recency, Function.update_of_ne hji, hl.current]
        omega
      · rw [hl.others j hji, hval]

end

/-! ## The profiler -/

section Profiler

variable {g : GuestState} {r : RegisterInfo} {h : HostState} {e : Bool} {d : Nat}

/-- Only a count and the flags are changed. -/
structure Counted (h h' : HostState) : Prop where
  frame : Frame h h'
  reg : h'.reg = h.reg
  slot : ∀ x, h'.cell (.gp x) = h.cell (.gp x)

theorem recordGpProfiler_runs (flags : Flags) (x : Nat) (s : GenState) :
    ∃ h', RunsOn (recordGpProfiler flags x) s h () s h' ∧ Counted h h' := by
  by_cases hc : flags.doProfile = true
  · refine ⟨_, runs_onlyIf_pos hc (runs_feEnc64 rfl rfl), ?_⟩
    have hslot : isRegFile (.gpUsage x) := trivial
    refine ⟨(frame_setCell h hslot _).trans (frame_clobberFlags _), rfl, fun y => ?_⟩
    have hne : Cell.gp y ≠ .gpUsage x := nofun
    show Function.update h.cell (.gpUsage x) (h.cell (.gpUsage x) + 1#64) (.gp y) = _
    rw [Function.update_of_ne hne]
  · exact ⟨h, runs_onlyIf_neg hc, Frame.refl h, rfl, fun _ => rfl⟩

theorem Counted.value {h' : HostState} (hc : Counted h h') (y : Nat) :
    regValue r h' y = regValue r h y := by
  unfold regValue
  rw [hc.reg, hc.slot]

theorem Counted.represents {h' : HostState} (hc : Counted h h') (hrep : Represents d g r h) :
    Represents d g r h' :=
  ⟨hrep.wf, fun y hy hyd hlt => (hc.value y).trans (hrep.regs y hy hyd hlt),
    hc.frame.mem.trans hrep.mem⟩

end Profiler

/-! ## Operands of an instruction -/

/-- An operand was loaded: the representation and the earlier operands are kept. -/
structure Fetched (g : GuestState) (d : Nat) (r : RegisterInfo) (h : HostState)
    (r' : RegisterInfo) (h' : HostState) : Prop where
  rep : Represents d g r' h'
  outside : Outside h h'
  operands : ∀ R y k, k ≤ 1 → y < 32 → Operand g r h R y k → Operand g r' h' R y (k + 1)

section Operands

variable {g : GuestState} {r : RegisterInfo} {h : HostState} {e : Bool} (flags : Flags)

theorem chosen_spec (r : RegisterInfo) (x : Nat) :
    r.replacementContent (chosen r x) = x ∨
      ∀ j, r.replacementRecency (chosen r x) ≤ r.replacementRecency j := by
  unfold chosen
  cases hfind : r.find x with
  | none => exact .inr (RegisterInfo.oldest_le r)
  | some i => exact .inl (RegisterInfo.find_some hfind)

theorem Counted.operand {h' : HostState} (hc : Counted h h') {R : FeReg} {y k : Nat}
    (ho : Operand g r h R y k) : Operand g r h' R y k :=
  ⟨ho.1, by rw [hc.reg, ho.2]⟩

theorem Counted.fetched {h' : HostState} (hc : Counted h h') {d d' : Nat}
    (hrep : Represents d g r h) (hd : d = x0 ∨ d = d') : Fetched g d' r h r h' := by
  have hrep' := hc.represents hrep
  refine ⟨⟨hrep'.wf, fun y hy hyd hlt => hrep'.regs y hy (fun h => ?_) hlt, hrep'.mem⟩,
    hc.frame.outside, fun R y k _ _ ho => ?_⟩
  · rcases hd with hd | hd
    · exact hy (h.trans hd)
    · exact hyd (h.trans hd)
  · exact ⟨(hc.operand ho).1.mono (Nat.le_succ k), (hc.operand ho).2⟩

/-- A load keeps the representation, up to the loaded register if it is not required. -/
theorem Loaded.fetched {x : Nat} {required : Bool} {i : Fin 3} {r' : RegisterInfo}
    {h₁ h' : HostState} (hrep : Represents x0 g r h) (hc : Counted h h₁) (hmap : gpMap x = none)
    (hx : x < 32) (hl : Loaded r h₁ x required i r' h')
    (hchosen : r.replacementContent i = x ∨ ∀ j, r.replacementRecency i ≤ r.replacementRecency j)
    {d : Nat} (hd : required = true ∨ d = x) : Fetched g d r h r' h' := by
  have hrep₁ := hc.represents hrep
  refine ⟨⟨hl.wf, fun y hy hyd hlt => ?_, hl.frame.mem.trans hrep₁.mem⟩,
    hc.frame.outside.trans hl.frame.outside, fun R y k hk hy ho =>
      hl.operand hrep.wf hchosen hk hy (hc.operand ho)⟩
  by_cases hyx : y = x
  · rcases hd with hreq | hdx
    · have hvalue := hl.value hreq
      rw [hyx] at hy ⊢
      have hheld : r'.replacementContent i = x := by rw [hl.content, Function.update_self]
      rw [regValue_held hmap (hl.wf.find hheld hmap (by unfold invalidReg; omega)), hvalue,
        if_neg hy, hrep₁.regs x hy hy hx]
    · exact absurd (hyx.trans hdx.symm) hyd
  · rw [hl.values y hy hyx hlt, hrep₁.regs y hy hy hlt]

/-- `getRs1` and `getRs2`, and the host register they return. -/
theorem getSrc_lies (hrep : Represents x0 g r h) {x : Nat} (hx : x < 32) :
    ∃ R r' h', RunsOn (getSrc flags x) ⟨r, e⟩ h R ⟨r', e⟩ h' ∧ Fetched g x0 r h r' h' ∧
      Operand g r' h' R x 0 ∧ (gpMap x = some R ∨ gpMap x = none ∧
        R = getRegForIndex (chosen r x) ∧ r'.replacementContent (chosen r x) = x) := by
  obtain ⟨h₁, hrun₁, hc⟩ := recordGpProfiler_runs (h := h) flags x ⟨r, e⟩
  have hrep₁ := hc.represents hrep
  cases hmap : gpMap x with
  | some mapped =>
      refine ⟨mapped, r, h₁, .bind hrun₁ ?_, hc.fetched hrep (.inl rfl), ⟨.inl hmap, ?_⟩, .inl rfl⟩
      · rw [hmap]
        exact Runs.ret _ _ _
      · have hne : x ≠ x0 := fun hx0 => by
          rw [hx0, gpMap_x0] at hmap
          exact absurd hmap nofun
        unfold GuestState.read
        rw [if_neg hne, ← hrep₁.regs x hne hne hx, regValue_mapped hmap]
  | none =>
      obtain ⟨r', h', hrun, hl, -⟩ :=
        loadIntoReplacement_runs (h := h₁) (e := e) hrep.wf hmap hx true
      have hcontent : r'.replacementContent (chosen r x) = x := by
        rw [hl.content, Function.update_self]
      refine ⟨getRegForIndex (chosen r x), r', h', .bind hrun₁ ?_,
        hl.fetched hrep hc hmap hx (chosen_spec r x) (.inl rfl),
        ⟨.inr ⟨chosen r x, rfl, hcontent, ?_⟩, ?_⟩, .inr ⟨rfl, rfl, hcontent⟩⟩
      · rw [hmap]
        exact hrun
      · rw [hl.recency, Function.update_self]
        exact Nat.le_refl _
      · rw [hl.value rfl]
        unfold GuestState.read
        by_cases hx0 : x = x0
        · rw [if_pos hx0, if_pos hx0]
        · rw [if_neg hx0, if_neg hx0, hrep₁.regs x hx0 hx0 hx]

/-- `getRs1` and `getRs2`. -/
theorem getSrc_runs (hrep : Represents x0 g r h) {x : Nat} (hx : x < 32) :
    ∃ R r' h', RunsOn (getSrc flags x) ⟨r, e⟩ h R ⟨r', e⟩ h' ∧ Fetched g x0 r h r' h' ∧
      Operand g r' h' R x 0 := by
  obtain ⟨R, r', h', hrun, hf, ho, -⟩ := getSrc_lies (e := e) flags hrep hx
  exact ⟨R, r', h', hrun, hf, ho⟩

/-- `getRd`, after which the destination is not among the next registers to be taken. -/
theorem getRd_pinned (hrep : Represents x0 g r h) {instr : RiscInstr} (hx : instr.regDest < 32) :
    ∃ R r' h', RunsOn (getRd flags instr) ⟨r, e⟩ h R ⟨r', e⟩ h' ∧
      Fetched g instr.regDest r h r' h' ∧ Located r' R instr.regDest ∧
      Pinned r' R instr.regDest 0 := by
  obtain ⟨h₁, hrun₁, hc⟩ := recordGpProfiler_runs (h := h) flags instr.regDest ⟨r, e⟩
  cases hmap : gpMap instr.regDest with
  | some mapped =>
      refine ⟨mapped, r, h₁, .bind hrun₁ ?_, hc.fetched hrep (.inl rfl), .inl hmap, .inl hmap⟩
      rw [hmap]
      exact Runs.ret _ _ _
  | none =>
      obtain ⟨r', h', hrun, hl, -⟩ :=
        loadIntoReplacement_runs (h := h₁) (e := e) hrep.wf hmap hx false
      have hcontent : r'.replacementContent (chosen r instr.regDest) = instr.regDest := by
        rw [hl.content, Function.update_self]
      refine ⟨getRegForIndex (chosen r instr.regDest), r', h', .bind hrun₁ ?_,
        hl.fetched hrep hc hmap hx (chosen_spec r _) (.inr rfl), .inr ⟨hmap, _, rfl, hcontent⟩,
        .inr ⟨_, rfl, hcontent, ?_⟩⟩
      · rw [hmap]
        exact hrun
      · rw [hl.recency, Function.update_self]
        exact Nat.le_refl _

/-- `getRd`. -/
theorem getRd_runs (hrep : Represents x0 g r h) {instr : RiscInstr} (hx : instr.regDest < 32) :
    ∃ R r' h', RunsOn (getRd flags instr) ⟨r, e⟩ h R ⟨r', e⟩ h' ∧
      Fetched g instr.regDest r h r' h' ∧ Located r' R instr.regDest := by
  obtain ⟨R, r', h', hrun, hf, hloc, -⟩ := getRd_pinned (e := e) flags hrep hx
  exact ⟨R, r', h', hrun, hf, hloc⟩

end Operands

/-! ## Operands in a given replacement -/

/-- What holds after the mapped register `x` was copied into the replacement `i`. -/
structure Copied (r : RegisterInfo) (h : HostState) (x : Nat) (i : Fin 3) (r' : RegisterInfo)
    (h' : HostState) : Prop where
  wf : r'.WellFormed
  current : r'.currentRecency = r.currentRecency + 1
  content : r'.replacementContent = Function.update r.replacementContent i x
  recency : r'.replacementRecency = Function.update r.replacementRecency i r'.currentRecency
  others : ∀ j, j ≠ i → h'.reg (getRegForIndex j) = h.reg (getRegForIndex j)
  value : h'.reg (getRegForIndex i) = regValue r h x
  values : ∀ y, y ≠ x0 → y < 32 → regValue r' h' y = regValue r h y
  slots : ∀ y, y = x0 ∨ r.replacementContent i ≠ y → h'.cell (.gp y) = h.cell (.gp y)
  frame : Frame h h'

section Given

variable {g : GuestState} {r r' : RegisterInfo} {h h₁ h' : HostState} {e : Bool} {x d : Nat}
  (flags : Flags)

theorem invalidateReplacement_runs (r : RegisterInfo) (h : HostState) (e : Bool) (i : Fin 3) :
    RunsOn (invalidateReplacement i) ⟨r, e⟩ h () ⟨r.note i invalidReg 0, e⟩ (writtenBack r h i) :=
  .bind runs_getRInfo (.bind (runs_writeBack ⟨r, e⟩ h i) (runs_modifyRInfo _))

/-- Emptying a replacement loses no value. -/
theorem regValue_invalidate (hr : r.WellFormed) (i : Fin 3) {y : Nat} (hy : y ≠ x0)
    (hlt : y < 32) :
    regValue (r.note i invalidReg 0) (writtenBack r h i) y = regValue r h y := by
  have hvalid : y ≠ invalidReg := by
    unfold invalidReg
    omega
  exact regValue_replace hr rfl (frame_writtenBack hr i) (fun _ _ => by rw [writtenBack_reg])
    (fun _ hy => writtenBack_slot i (.inr hy)) (fun _ hc => writtenBack_content hc) hy hvalid hlt

theorem Represents.invalidate (hrep : Represents d g r h) (i : Fin 3) :
    Represents d g (r.note i invalidReg 0) (writtenBack r h i) := by
  refine ⟨hrep.wf.clear i, fun y hy hyd hlt => ?_, (frame_writtenBack hrep.wf i).mem.trans hrep.mem⟩
  rw [regValue_invalidate hrep.wf i hy hlt]
  exact hrep.regs y hy hyd hlt

/-- `invalidateOldest` where the oldest replacement was empty already. -/
theorem invalidateOldest_runs_empty (hempty : r.replacementContent r.oldest = invalidReg) :
    RunsOn invalidateOldest ⟨r, e⟩ h (getRegForIndex r.oldest) ⟨r, e⟩ h :=
  .bind runs_getRInfo (.bind (runs_onlyIf_neg fun hc => hc.2 hempty) (Runs.ret _ _ _))

/-- `invalidateOldest` where the oldest replacement held a register. -/
theorem invalidateOldest_runs_held (hr : r.WellFormed)
    (hheld : r.replacementContent r.oldest ≠ invalidReg) :
    RunsOn invalidateOldest ⟨r, e⟩ h (getRegForIndex r.oldest)
      ⟨r.note r.oldest invalidReg 0, e⟩ (writtenBack r h r.oldest) := by
  have hold : r.replacementRecency r.oldest ≠ 0 := fun hzero => hheld ((hr.empty _).1 hzero)
  exact .bind runs_getRInfo (.bind (runs_onlyIf_pos ⟨hold, hheld⟩
    (invalidateReplacement_runs r h e _)) (Runs.ret _ _ _))

/-- A register that was just requested is not the next one to be taken. -/
theorem Pinned.ne_oldest {R : FeReg} (hr : r.WellFormed) (hx : x < 32) (hp : Pinned r R x 1) :
    R ≠ getRegForIndex r.oldest := by
  rcases hp with hmap | ⟨i, rfl, hi, hyoung⟩
  · exact gpMap_ne_replacement hmap _
  · obtain ⟨j, hj⟩ := hr.not_oldest hyoung (by rw [hi]; unfold invalidReg; omega)
    intro heq
    have hle := r.oldest_le j
    rw [← getRegForIndex_injective heq] at hle
    omega

/-- The scratch register is empty after `invalidateOldest`, and no value is lost. -/
theorem invalidateOldest_represents (hrep : Represents d g r h) :
    ∃ r' h', RunsOn invalidateOldest ⟨r, e⟩ h (getRegForIndex r.oldest) ⟨r', e⟩ h' ∧
      Represents d g r' h' ∧ Frame h h' ∧ h'.reg = h.reg ∧
      r'.replacementContent r.oldest = invalidReg ∧
      ∀ i, i ≠ r.oldest → r'.replacementContent i = r.replacementContent i := by
  by_cases hempty : r.replacementContent r.oldest = invalidReg
  · exact ⟨r, h, invalidateOldest_runs_empty hempty, hrep, .refl h, rfl, hempty, fun _ _ => rfl⟩
  · exact ⟨_, _, invalidateOldest_runs_held hrep.wf hempty, hrep.invalidate _,
      frame_writtenBack hrep.wf _, writtenBack_reg _, by simp, fun i hi => by simp [hi]⟩

/-- The host after a mapped register was copied into a replacement. -/
theorem copied_spec (hr : r.WellFormed) (hx : x < 32) {mapped : FeReg}
    (hmap : gpMap x = some mapped) (i : Fin 3) :
    Copied r h x i ((r.note i invalidReg 0).tick.note i x
      (r.note i invalidReg 0).tick.currentRecency)
      ((writtenBack r h i).setReg (getRegForIndex i) (h.reg mapped)) := by
  have hframe := (frame_writtenBack (h := h) hr i).trans (frame_setReg _ i (h.reg mapped))
  have hwf := (hr.clear i).load i hx fun hnone => absurd (hmap.symm.trans hnone) nofun
  have hothers : ∀ j, j ≠ i → ((writtenBack r h i).setReg (getRegForIndex i) (h.reg mapped)).reg
      (getRegForIndex j) = h.reg (getRegForIndex j) := by
    intro j hj
    refine (Function.update_of_ne (regForIndex_ne hj) _ _).trans ?_
    rw [writtenBack_reg]
  have hcontent : ((r.note i invalidReg 0).tick.note i x
      (r.note i invalidReg 0).tick.currentRecency).replacementContent =
      Function.update r.replacementContent i x := Function.update_idem ..
  refine ⟨hwf, rfl, hcontent, Function.update_idem .., hothers, ?_, fun y hy hlt => ?_,
    fun y hy => writtenBack_slot i hy, hframe⟩
  · rw [regValue_mapped hmap]
    exact Function.update_self ..
  · by_cases hyx : y = x
    · rw [hyx, regValue_mapped hmap, regValue_mapped hmap]
      exact hframe.reg mapped (gpMap_ne_replacement hmap)
    · exact regValue_replace hr hcontent hframe hothers
        (fun _ hy => writtenBack_slot i (.inr hy)) (fun _ hc => writtenBack_content hc) hy hyx hlt

/-- The branch of `getRs1Into` and `getRs2Into` for a mapped register. -/
theorem getSrcInto_copies {mapped : FeReg} (hmap : gpMap x = some mapped) (i : Fin 3) :
    RunsOn (if mapped = getRegForIndex i then return mapped else do
        invalidateReplacement i
        feEnc64 (.movrr .s64 (getRegForIndex i) mapped)
        modifyRInfo RegisterInfo.tick
        modifyRInfo fun r => r.note i x r.currentRecency
        return getRegForIndex i) ⟨r, e⟩ h (getRegForIndex i)
      ⟨(r.note i invalidReg 0).tick.note i x (r.note i invalidReg 0).tick.currentRecency, e⟩
      ((writtenBack r h i).setReg (getRegForIndex i) (h.reg mapped)) := by
  rw [if_neg (gpMap_ne_replacement hmap i)]
  refine .bind (invalidateReplacement_runs r h e i) (.bind (runs_feEnc64 rfl ?_)
    (.bind (runs_modifyRInfo _) (.bind (runs_modifyRInfo _) (Runs.ret _ _ _))))
  show some ((writtenBack r h i).setReg _ ((writtenBack r h i).reg mapped)) = _
  rw [writtenBack_reg]

/-- `getRs1Into` and `getRs2Into`: an unmapped register is loaded, a mapped one copied. -/
theorem getSrcInto_runs (hr : r.WellFormed) (hx : x < 32) (i : Fin 3) :
    ∃ h₁ r' h', RunsOn (getSrcInto flags x i) ⟨r, e⟩ h (getRegForIndex i) ⟨r', e⟩ h' ∧
      Counted h h₁ ∧ ((gpMap x = none ∧ Placed r h₁ x true i r' h') ∨
        (gpMap x ≠ none ∧ Copied r h₁ x i r' h')) := by
  obtain ⟨h₁, hrun₁, hc⟩ := recordGpProfiler_runs (h := h) flags x ⟨r, e⟩
  cases hmap : gpMap x with
  | none =>
      obtain ⟨r', h', hrun, hp⟩ := loadIntoSpecific_runs (h := h₁) (e := e) hr hmap hx i true
      refine ⟨h₁, r', h', .bind hrun₁ ?_, hc, .inl ⟨rfl, hp⟩⟩
      rw [hmap]
      exact hrun
  | some mapped =>
      refine ⟨h₁, _, _, .bind hrun₁ ?_, hc, .inr ⟨Option.some_ne_none _,
        copied_spec (h := h₁) hr hx hmap i⟩⟩
      rw [hmap]
      exact getSrcInto_copies hmap i

theorem read_eq (g : GuestState) (x : Nat) : g.read x = if x = x0 then 0#64 else g.reg x := rfl

theorem Copied.operand (hrep : Represents x0 g r h) (hx : x < 32) (hmap : gpMap x ≠ none)
    {i : Fin 3} (hc : Copied r h x i r' h') :
    Represents x0 g r' h' ∧ Operand g r' h' (getRegForIndex i) x 0 := by
  have hx0 : x ≠ x0 := fun h => hmap (by rw [h, gpMap_x0])
  refine ⟨⟨hc.wf, fun y hy _ hlt => ?_, hc.frame.mem.trans hrep.mem⟩, .inr ⟨i, rfl, ?_, ?_⟩, ?_⟩
  · rw [hc.values y hy hlt]
    exact hrep.regs y hy hy hlt
  · rw [hc.content, Function.update_self]
  · rw [hc.recency, Function.update_self]
    exact Nat.le_refl _
  · rw [hc.value, read_eq, if_neg hx0]
    exact hrep.regs x hx0 hx0 hx

theorem Placed.operand (hrep : Represents x0 g r h) (hx : x < 32) (hmap : gpMap x = none)
    {i : Fin 3} (hp : Placed r h x true i r' h') :
    Represents x0 g r' h' ∧ Operand g r' h' (getRegForIndex i) x 0 := by
  have hread : h'.reg (getRegForIndex i) = g.read x := by
    rw [hp.value rfl, read_eq]
    by_cases hx0 : x = x0
    · rw [if_pos hx0, if_pos hx0]
    · rw [if_neg hx0, if_neg hx0]
      exact hrep.regs x hx0 hx0 hx
  have hvalid : x ≠ invalidReg := by
    unfold invalidReg
    omega
  refine ⟨⟨hp.wf, fun y hy _ hlt => ?_, hp.frame.mem.trans hrep.mem⟩,
    .inr ⟨i, rfl, hp.content, Nat.le_of_eq hp.recency.symm⟩, hread⟩
  by_cases hyx : y = x
  · rw [hyx, regValue_held hmap (hp.wf.find hp.content hmap hvalid), hread, read_eq,
      if_neg (by rwa [← hyx])]
  · rw [hp.values y hy hyx hlt]
    exact hrep.regs y hy hy hlt

/-- An operand in a given replacement, before any other is fetched. -/
theorem getSrcInto_operand (hrep : Represents x0 g r h) (hx : x < 32) (i : Fin 3) :
    ∃ r' h', RunsOn (getSrcInto flags x i) ⟨r, e⟩ h (getRegForIndex i) ⟨r', e⟩ h' ∧
      Represents x0 g r' h' ∧ Outside h h' ∧ Operand g r' h' (getRegForIndex i) x 0 := by
  obtain ⟨h₁, r', h', hrun, hc, ⟨hmap, hp⟩ | ⟨hmap, hp⟩⟩ :=
    getSrcInto_runs (h := h) (e := e) flags hrep.wf hx i
  · obtain ⟨hrep', ho⟩ := hp.operand (hc.represents hrep) hx hmap
    exact ⟨r', h', hrun, hrep', hc.frame.outside.trans hp.frame.outside, ho⟩
  · obtain ⟨hrep', ho⟩ := hp.operand (hc.represents hrep) hx hmap
    exact ⟨r', h', hrun, hrep', hc.frame.outside.trans hp.frame.outside, ho⟩

/-- No replacement holds a register. -/
def RegisterInfo.Empty (r : RegisterInfo) : Prop := ∀ i, r.replacementContent i = invalidReg

/-- All replacements are emptied; afterwards every value lies in its slot. -/
theorem invalidateAllReplacements_runs (hrep : Represents d g r h) :
    ∃ r' h', RunsOn invalidateAllReplacements ⟨r, e⟩ h () ⟨r', e⟩ h' ∧ Represents d g r' h' ∧
      Outside h h' ∧ r'.Empty := by
  have hrep₀ := hrep.invalidate 0
  have hrep₁ := hrep₀.invalidate 1
  have hrep₂ := hrep₁.invalidate 2
  refine ⟨_, _, .bind (invalidateReplacement_runs r h e 0)
    (.bind (invalidateReplacement_runs _ _ e 1) (invalidateReplacement_runs _ _ e 2)), hrep₂,
    (frame_writtenBack hrep.wf 0).outside.trans ((frame_writtenBack hrep₀.wf 1).outside.trans
      (frame_writtenBack hrep₁.wf 2).outside), fun i => ?_⟩
  match i with
  | 0 => rfl
  | 1 => rfl
  | 2 => rfl

end Given

/-! ## Results -/

/-- One host register and the flags are changed. -/
structure Writes (h h' : HostState) (R : FeReg) (v : BitVec 64) : Prop where
  reg : h'.reg = Function.update h.reg R v
  cell : h'.cell = h.cell
  mem : h'.mem = h.mem
  stack : h'.stack = h.stack

/-- Only registers with `S` and the flags are changed. -/
structure Scratches (h h' : HostState) (S : FeReg → Prop) : Prop where
  reg : ∀ R, ¬ S R → h'.reg R = h.reg R
  cell : h'.cell = h.cell
  mem : h'.mem = h.mem
  stack : h'.stack = h.stack

section Results

variable {g : GuestState} {r : RegisterInfo} {h h' h'' : HostState} {d : Nat} {R : FeReg}
  {v w : BitVec 64}

theorem writes_setReg (h : HostState) (R : FeReg) (v : BitVec 64) : Writes h (h.setReg R v) R v :=
  ⟨rfl, rfl, rfl, rfl⟩

theorem Writes.clobberFlags (hw : Writes h h' R v) : Writes h h'.clobberFlags R v :=
  ⟨hw.reg, hw.cell, hw.mem, hw.stack⟩

theorem Writes.trans (h₁ : Writes h h' R v) (h₂ : Writes h' h'' R w) : Writes h h'' R w := by
  refine ⟨?_, h₂.cell.trans h₁.cell, h₂.mem.trans h₁.mem, h₂.stack.trans h₁.stack⟩
  rw [h₂.reg, h₁.reg, Function.update_idem]

/-- A register that was not changed was written with its value. -/
theorem writes_refl (h : HostState) (R : FeReg) : Writes h h R (h.reg R) :=
  ⟨(Function.update_eq_self R h.reg).symm, rfl, rfl, rfl⟩

theorem Located.ne_sp (hloc : Located r R d) : R ≠ .sp := by
  rcases hloc with hmap | ⟨-, i, rfl, -⟩
  · exact gpMap_ne_sp hmap
  · exact getRegForIndex_ne_sp i

/-- Registers that do not hold a guest register may be overwritten. -/
theorem Scratches.value {S : FeReg → Prop} (hs : Scratches h h' S) {y : Nat}
    (hheld : ∀ i, S (getRegForIndex i) → r.replacementContent i ≠ y)
    (hmapped : ∀ mapped, gpMap y = some mapped → ¬ S mapped) :
    regValue r h' y = regValue r h y := by
  cases hmap : gpMap y with
  | some mapped =>
      rw [regValue_mapped hmap, regValue_mapped hmap]
      exact hs.reg mapped (hmapped mapped hmap)
  | none =>
      cases hfind : r.find y with
      | none => rw [regValue_slot hmap hfind, regValue_slot hmap hfind, hs.cell]
      | some j =>
          rw [regValue_held hmap hfind, regValue_held hmap hfind]
          exact hs.reg _ fun hS => hheld j hS (RegisterInfo.find_some hfind)

/-- Registers that hold nothing may be overwritten. -/
theorem Represents.overwrite {S : FeReg → Prop} (hrep : Represents d g r h)
    (hs : Scratches h h' S)
    (hheld : ∀ i, S (getRegForIndex i) → r.replacementContent i = invalidReg)
    (hmapped : ∀ y mapped, gpMap y = some mapped → ¬ S mapped) : Represents d g r h' := by
  refine ⟨hrep.wf, fun y hy hyd hlt => ?_, hs.mem.trans hrep.mem⟩
  have hvalid : y ≠ invalidReg := by
    unfold invalidReg
    omega
  rw [hs.value (fun i hi hyi => hvalid (hyi.symm.trans (hheld i hi))) (hmapped y)]
  exact hrep.regs y hy hyd hlt

/-- The value that is left where the destination lies is the destination's, if other registers
that were overwritten held nothing. -/
theorem Represents.scratch {S : FeReg → Prop} (hrep : Represents d g r h) (hloc : Located r R d)
    (hd : d < 32) (hs : Scratches h h' S)
    (hheld : ∀ i, S (getRegForIndex i) →
      r.replacementContent i = invalidReg ∨ r.replacementContent i = d)
    (hmapped : ∀ y mapped, gpMap y = some mapped → S mapped → y = d) :
    Represents x0 (g.write d (h'.reg R)) r h' := by
  have hvalid : ∀ z, z < 32 → z ≠ invalidReg := fun z hz => by
    unfold invalidReg
    omega
  refine ⟨hrep.wf, fun y hy _ hlt => ?_, ?_⟩
  · by_cases hyd : y = d
    · subst hyd
      rw [g.write_reg_self hy]
      rcases hloc with hmap | ⟨hmap, i, rfl, hi⟩
      · exact regValue_mapped hmap
      · exact regValue_held hmap (hrep.wf.find hi hmap (hvalid y hd))
    · rw [g.write_reg_of_ne hyd, ← hrep.regs y hy hyd hlt]
      refine hs.value (fun i hi hyi => ?_) fun mapped hmap hS => hyd (hmapped y mapped hmap hS)
      rcases hheld i hi with hinvalid | hid
      · exact hvalid y hlt (hyi.symm.trans hinvalid)
      · exact hyd (hyi.symm.trans hid)
  · rw [g.write_mem, hs.mem, hrep.mem]

theorem Scratches.trans {S T : FeReg → Prop} (h₁ : Scratches h h' S) (h₂ : Scratches h' h'' T)
    (hsub : ∀ Q, T Q → S Q) : Scratches h h'' S :=
  ⟨fun Q hQ => (h₂.reg Q fun hT => hQ (hsub Q hT)).trans (h₁.reg Q hQ), h₂.cell.trans h₁.cell,
    h₂.mem.trans h₁.mem, h₂.stack.trans h₁.stack⟩

theorem Scratches.outside {S : FeReg → Prop} (hs : Scratches h h' S) (hsp : ¬ S .sp) :
    Outside h h' :=
  ⟨hs.stack, hs.reg .sp hsp, fun c _ => by rw [hs.cell]⟩

theorem Writes.scratches (hw : Writes h h' R v) : Scratches h h' (· = R) :=
  ⟨fun Q hQ => by rw [hw.reg, Function.update_of_ne hQ], hw.cell, hw.mem, hw.stack⟩

theorem Writes.outside (hw : Writes h h' R v) (hloc : Located r R d) : Outside h h' :=
  hw.scratches.outside hloc.ne_sp.symm

/-- The value that is written where the destination lies is the destination's. -/
theorem Represents.write (hrep : Represents d g r h) (hloc : Located r R d) (hd : d < 32)
    (hw : Writes h h' R v) : Represents x0 (g.write d v) r h' := by
  have hvalue : h'.reg R = v := by rw [hw.reg, Function.update_self]
  rw [← hvalue]
  refine hrep.scratch hloc hd hw.scratches (fun i hi => ?_) fun y mapped hmap hR => ?_
  · rcases hloc with hmap | ⟨-, j, rfl, hj⟩
    · exact absurd hi.symm (gpMap_ne_replacement hmap i)
    · rw [getRegForIndex_injective hi]
      exact .inr hj
  · rcases hloc with hmap' | ⟨-, j, rfl, -⟩
    · exact gpMap_injective hmap (by rwa [hR])
    · exact absurd hR (gpMap_ne_replacement hmap j)

/-- A change of guest memory. -/
theorem Represents.store (hrep : Represents x0 g r h) (mem : Memory) :
    Represents x0 { g with mem := mem } r { h with mem := mem } :=
  ⟨hrep.wf, hrep.regs, rfl⟩

end Results

end RiaJit.Translate
