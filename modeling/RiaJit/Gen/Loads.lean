import RiaJit.Gen.RegisterCache

/-!
# Loads of guest registers

What the helpers that load a guest register into a replacement do, to `r_info` and on
the host, as one judgement each: into the replacement that holds it or the oldest one,
and into a given one, where another replacement may have to give up what it holds.
-/

set_option autoImplicit false

namespace RiaJit.Translate

open EmitLogic X86

/-! ## Loads -/

/-- What holds after `x` was loaded into a replacement. The register has its value if it
was required or was there before; all others keep theirs. -/
structure Loaded (r : RegisterInfo) (h : HostState) (x : Nat) (required : Bool) (i : Fin 3)
    (r' : RegisterInfo) (h' : HostState) : Prop where
  wf : r'.WellFormed
  current : r'.currentRecency = r.currentRecency + 1
  content : r'.replacementContent = Function.update r.replacementContent i x
  recency : r'.replacementRecency = Function.update r.replacementRecency i r'.currentRecency
  others : ∀ j, j ≠ i → h'.reg (getRegForIndex j) = h.reg (getRegForIndex j)
  present : r.replacementContent i = x →
    h'.reg (getRegForIndex i) = if x = x0 then 0#64 else h.reg (getRegForIndex i)
  value : required = true →
    h'.reg (getRegForIndex i) = if x = x0 then 0#64 else regValue r h x
  values : ∀ y, y ≠ x0 → y ≠ x → y < 32 → regValue r' h' y = regValue r h y
  slots : ∀ y, r.replacementContent i ≠ y → h'.cell (.gp y) = h.cell (.gp y)
  frame : Frame h h'

section Loads

variable {r : RegisterInfo} {h : HostState} {e : Bool} {x : Nat}

/-- The host after an optional zeroing. -/
def zeroedIf (c : Prop) [Decidable c] (h : HostState) (R : FeReg) : HostState :=
  if c then (h.setReg R 0#64).clobberFlags else h

theorem runs_zeroIf {s : GenState} (c : Prop) [Decidable c] (h : HostState) (R : FeReg) :
    RunsOn (onlyIf c (zero R)) s h () s (zeroedIf c h R) := by
  unfold zeroedIf
  by_cases hc : c
  · rw [if_pos hc]
    exact runs_onlyIf_pos hc (runs_zero R)
  · rw [if_neg hc]
    exact runs_onlyIf_neg hc

/-- Clearing a replacement stays within the frame. -/
theorem frame_zeroedIf (c : Prop) [Decidable c] (h : HostState) (i : Fin 3) :
    Frame h (zeroedIf c h (getRegForIndex i)) := by
  unfold zeroedIf
  split
  · exact (frame_setReg h i _).trans (frame_clobberFlags _)
  · exact Frame.refl h

@[simp] theorem zeroedIf_cell (c : Prop) [Decidable c] (h : HostState) (R : FeReg) :
    (zeroedIf c h R).cell = h.cell := by
  unfold zeroedIf
  split
  · rfl
  · rfl

/-- The register is zero, if it had to be cleared. -/
theorem zeroedIf_reg_self (c : Prop) [Decidable c] (h : HostState) (R : FeReg) :
    (zeroedIf c h R).reg R = if c then 0#64 else h.reg R := by
  unfold zeroedIf
  split
  · exact Function.update_self ..
  · rfl

theorem zeroedIf_reg_of_ne (c : Prop) [Decidable c] (h : HostState) {R R' : FeReg} (hne : R' ≠ R) :
    (zeroedIf c h R).reg R' = h.reg R' := by
  unfold zeroedIf
  split
  · exact Function.update_of_ne hne ..
  · rfl

theorem regForIndex_ne {i j : Fin 3} (hij : i ≠ j) : getRegForIndex i ≠ getRegForIndex j :=
  fun h => hij (getRegForIndex_injective h)

/-- A register that is already where it is loaded. -/
theorem loaded_present (hr : r.WellFormed) (hmap : gpMap x = none) (hx : x < 32)
    (required : Bool) {i : Fin 3} (hi : r.replacementContent i = x) :
    Loaded r h x required i (r.tick.note i x r.tick.currentRecency)
      (zeroedIf (x = x0) h (getRegForIndex i)) := by
  have hvalid : x ≠ invalidReg := by
    unfold invalidReg
    omega
  have hsame : Function.update r.replacementContent i x = r.replacementContent := by
    rw [← hi]
    exact Function.update_eq_self i r.replacementContent
  have hunique : ∀ j, j ≠ i → r.replacementContent j ≠ x := fun j hj hjx =>
    hj (hr.distinct j i (hjx.trans hi.symm) (by rwa [hjx]) (by rwa [hjx]))
  have hothers : ∀ j, j ≠ i → (zeroedIf (x = x0) h (getRegForIndex i)).reg (getRegForIndex j) =
      h.reg (getRegForIndex j) := fun j hj => zeroedIf_reg_of_ne _ h (regForIndex_ne hj)
  refine ⟨hr.load i hx fun _ => hunique, rfl, rfl, rfl, hothers, fun _ => zeroedIf_reg_self _ h _,
    fun _ => ?_, fun y hy hyx hylt => ?_, fun _ _ => by rw [zeroedIf_cell], frame_zeroedIf _ h i⟩
  · rw [zeroedIf_reg_self, regValue_held hmap (hr.find hi hmap hvalid)]
  · exact regValue_replace hr rfl (frame_zeroedIf _ h i) hothers
      (fun _ _ => by rw [zeroedIf_cell]) (fun hne => absurd hi hne) hy hyx hylt

/-- The host after the value of a register was loaded from its slot, if it is required. -/
def loadedValue (x : Nat) (required : Bool) (h : HostState) (R : FeReg) : HostState :=
  if required then
    if x ≠ x0 then h.setReg R (h.cell (.gp x)) else (h.setReg R 0#64).clobberFlags
  else h

/-- The value is loaded from the slot, or is the constant zero, if it is required. -/
theorem runs_loadValue (s : GenState) (x : Nat) (required : Bool) (h : HostState) (R : FeReg) :
    RunsOn (onlyIf (required = true) (loadValue x R)) s h () s (loadedValue x required h R) := by
  unfold loadedValue
  cases required with
  | false => exact runs_onlyIf_neg Bool.false_ne_true
  | true =>
      refine runs_onlyIf_pos rfl ?_
      unfold loadValue
      rw [if_pos rfl]
      by_cases hx : x ≠ x0
      · rw [if_pos hx, if_pos hx]
        exact runs_feEnc64 rfl rfl
      · rw [if_neg hx, if_neg hx]
        exact runs_zero R

@[simp] theorem loadedValue_cell (x : Nat) (required : Bool) (h : HostState) (R : FeReg) :
    (loadedValue x required h R).cell = h.cell := by
  unfold loadedValue
  split
  · split
    · rfl
    · rfl
  · rfl

/-- A load changes no other register. -/
theorem loadedValue_reg_of_ne (x : Nat) (required : Bool) (h : HostState) {R R' : FeReg}
    (hne : R' ≠ R) : (loadedValue x required h R).reg R' = h.reg R' := by
  unfold loadedValue
  split
  · split
    · exact Function.update_of_ne hne ..
    · exact Function.update_of_ne hne ..
  · rfl

/-- A load delivers the slot's value, and zero for the zero register. -/
theorem loadedValue_reg_self (x : Nat) (h : HostState) (R : FeReg) :
    (loadedValue x true h R).reg R = if x = x0 then 0#64 else h.cell (.gp x) := by
  unfold loadedValue
  rw [if_pos rfl]
  by_cases hx : x = x0
  · rw [if_pos hx, if_neg (not_not.2 hx)]
    exact Function.update_self ..
  · rw [if_neg hx, if_pos hx]
    exact Function.update_self ..

/-- A load stays within the frame. -/
theorem frame_loadedValue (x : Nat) (required : Bool) (h : HostState) (i : Fin 3) :
    Frame h (loadedValue x required h (getRegForIndex i)) := by
  unfold loadedValue
  split
  · split
    · exact frame_setReg h i _
    · exact (frame_setReg h i _).trans (frame_clobberFlags _)
  · exact Frame.refl h

/-- A register that is in no replacement takes the place of another one, which `h₁` has
written back. -/
theorem loaded_absent (hr : r.WellFormed) (hmap : gpMap x = none) (hx : x < 32)
    (hfind : r.find x = none) {h₁ h' : HostState} {i : Fin 3} {required : Bool}
    (hreg : h₁.reg = h.reg)
    (hslot : ∀ y, r.replacementContent i ≠ y → h₁.cell (.gp y) = h.cell (.gp y))
    (hback : needsWriteBack r i →
      h₁.cell (.gp (r.replacementContent i)) = h.reg (getRegForIndex i))
    (hframe : Frame h h₁) (hcell : h'.cell = h₁.cell)
    (hothers : ∀ j, j ≠ i → h'.reg (getRegForIndex j) = h₁.reg (getRegForIndex j))
    (hvalue : required = true →
      h'.reg (getRegForIndex i) = if x = x0 then 0#64 else h₁.cell (.gp x))
    (hframe' : Frame h₁ h') :
    Loaded r h x required i (r.tick.note i x r.tick.currentRecency) h' := by
  have habsent := RegisterInfo.find_none hfind
  have hothers' : ∀ j, j ≠ i → h'.reg (getRegForIndex j) = h.reg (getRegForIndex j) :=
    fun j hj => by rw [hothers j hj, hreg]
  have hslots : ∀ y, r.replacementContent i ≠ y → h'.cell (.gp y) = h.cell (.gp y) :=
    fun y hy => by rw [hcell, hslot y hy]
  refine ⟨hr.load i hx fun _ j _ => habsent j, rfl, rfl, rfl, hothers',
    fun hi => absurd hi (habsent i), fun hreq => ?_, fun y hy hyx hylt => ?_, hslots,
    hframe.trans hframe'⟩
  · rw [hvalue hreq, regValue_slot hmap hfind, hslot x (habsent i)]
  · refine regValue_replace hr rfl (hframe.trans hframe') hothers' hslots
      (fun _ hc => ?_) hy hyx hylt
    rw [hcell, hback hc]

/-- The replacement that `loadIntoReplacement` takes. -/
def chosen (r : RegisterInfo) (x : Nat) : Fin 3 := (r.find x).getD r.oldest

/-- The search for the register decides between reuse and a load. -/
theorem runs_loadIntoReplacement_of {required : Bool} {R : FeReg} {r' : RegisterInfo}
    {h' : HostState} {present : Option (Fin 3)} (hfind : r.find x = present)
    (htake : RunsOn (match present with
      | some i => reuseReplacement x i
      | none => takeOldest x required) ⟨r.tick, e⟩ h R ⟨r', e⟩ h') :
    RunsOn (loadIntoReplacement x required) ⟨r, e⟩ h R ⟨r', e⟩ h' := by
  refine .bind (runs_modifyRInfo _) (.bind runs_getRInfo ?_)
  subst hfind
  exact htake

/-- A register that is present stays where it is. -/
theorem loadIntoReplacement_runs_present {i : Fin 3} (hfind : r.find x = some i)
    (required : Bool) :
    RunsOn (loadIntoReplacement x required) ⟨r, e⟩ h (getRegForIndex i)
      ⟨r.tick.note i x r.tick.currentRecency, e⟩ (zeroedIf (x = x0) h (getRegForIndex i)) :=
  runs_loadIntoReplacement_of hfind
    (.bind (runs_modifyRInfo _) (.bind (runs_zeroIf _ _ _) (Runs.ret _ _ _)))

/-- A register that is absent takes the place of the oldest one. -/
theorem loadIntoReplacement_runs_absent (hfind : r.find x = none) (required : Bool) :
    RunsOn (loadIntoReplacement x required) ⟨r, e⟩ h (getRegForIndex r.oldest)
      ⟨r.tick.note r.oldest x r.tick.currentRecency, e⟩
      (loadedValue x required (writtenBack r h r.oldest) (getRegForIndex r.oldest)) :=
  runs_loadIntoReplacement_of hfind
    (.bind runs_getRInfo (.bind (runs_writeBack ⟨r.tick, e⟩ h r.oldest)
      (.bind (runs_modifyRInfo _) (.bind (runs_loadValue _ _ _ _ _) (Runs.ret _ _ _)))))

/-- `loadIntoReplacement` writes back what it evicts, unless that is `x0`, and nothing where the
register was present. Where a register that was absent is not required, no host register changes. -/
theorem loadIntoReplacement_runs (hr : r.WellFormed) (hmap : gpMap x = none) (hx : x < 32)
    (required : Bool) :
    ∃ r' h', RunsOn (loadIntoReplacement x required) ⟨r, e⟩ h (getRegForIndex (chosen r x))
        ⟨r', e⟩ h' ∧
      Loaded r h x required (chosen r x) r' h' ∧
      (∀ y, y = x0 ∨ r.find x ≠ none → h'.cell (.gp y) = h.cell (.gp y)) ∧
      (required = false → r.find x = none → h'.reg = h.reg) := by
  unfold chosen
  -- the register is held already, or the oldest replacement is written back and taken
  cases hfind : r.find x with
  | some i =>
      exact ⟨_, _, loadIntoReplacement_runs_present hfind required,
        loaded_present hr hmap hx required (RegisterInfo.find_some hfind),
        fun _ _ => by rw [zeroedIf_cell], fun _ habs => absurd habs nofun⟩
  | none =>
      have hloaded : Loaded r h x required r.oldest
          (r.tick.note r.oldest x r.tick.currentRecency)
          (loadedValue x required (writtenBack r h r.oldest) (getRegForIndex r.oldest)) := by
        refine loaded_absent hr hmap hx hfind (writtenBack_reg _)
          (fun y hy => writtenBack_slot _ (.inr hy)) writtenBack_content
          (frame_writtenBack hr _) (loadedValue_cell ..)
          (fun j hj => loadedValue_reg_of_ne _ _ _ (regForIndex_ne hj)) (fun hreq => ?_)
          (frame_loadedValue ..)
        rw [hreq]
        exact loadedValue_reg_self ..
      refine ⟨_, _, loadIntoReplacement_runs_absent hfind required, hloaded, fun y hy => ?_,
        fun hreq _ => ?_⟩
      · have hx0 : y = x0 := hy.resolve_right fun hne => hne rfl
        rw [loadedValue_cell]
        exact writtenBack_slot _ (.inl hx0)
      · rw [hreq]
        exact writtenBack_reg _

end Loads

/-! ## Loads into a given replacement -/

/-- What holds after `x` was loaded into the replacement `i`. If another one held `x`, it
now has what `i` held. -/
structure Placed (r : RegisterInfo) (h : HostState) (x : Nat) (required : Bool) (i : Fin 3)
    (r' : RegisterInfo) (h' : HostState) : Prop where
  wf : r'.WellFormed
  current : r'.currentRecency = r.currentRecency + 1
  content : r'.replacementContent i = x
  recency : r'.replacementRecency i = r'.currentRecency
  others : ∀ j, j ≠ i → r.replacementContent j ≠ x →
    r'.replacementContent j = r.replacementContent j ∧
      r'.replacementRecency j = r.replacementRecency j ∧
      h'.reg (getRegForIndex j) = h.reg (getRegForIndex j)
  moved : ∀ j, j ≠ i → r.replacementContent j = x →
    r'.replacementContent j = r.replacementContent i ∧
      r'.replacementRecency j = r.replacementRecency i ∧
      h'.reg (getRegForIndex j) =
        if r.replacementRecency i ≠ 0 then h.reg (getRegForIndex i) else h.reg (getRegForIndex j)
  value : required = true →
    h'.reg (getRegForIndex i) = if x = x0 then 0#64 else regValue r h x
  values : ∀ y, y ≠ x0 → y ≠ x → y < 32 → regValue r' h' y = regValue r h y
  slots : ∀ y, r.replacementContent i ≠ y ∨ r.find x ≠ none → h'.cell (.gp y) = h.cell (.gp y)
  frame : Frame h h'

section Specific

variable {r : RegisterInfo} {h : HostState} {e : Bool} {x : Nat}

/-- What is loaded is placed, if no other replacement holds the register. -/
theorem Loaded.placed {required : Bool} {i : Fin 3} {r' : RegisterInfo} {h' : HostState}
    (hl : Loaded r h x required i r' h') (honly : ∀ j, j ≠ i → r.replacementContent j ≠ x)
    (hslots : r.find x ≠ none → ∀ y, h'.cell (.gp y) = h.cell (.gp y)) :
    Placed r h x required i r' h' := by
  refine ⟨hl.wf, hl.current, ?_, ?_, fun j hj _ => ⟨?_, ?_, hl.others j hj⟩,
    fun j hj hjx => absurd hjx (honly j hj), hl.value, hl.values, fun y hy => ?_, hl.frame⟩
  · rw [hl.content, Function.update_self]
  · rw [hl.recency, Function.update_self]
  · rw [hl.content, Function.update_of_ne hj]
  · rw [hl.recency, Function.update_of_ne hj]
  · rcases hy with hy | hy
    · exact hl.slots y hy
    · exact hslots hy y

/-- The host after the content of a replacement was written back by `loadIntoSpecific`. -/
def evicted (r : RegisterInfo) (h : HostState) (i : Fin 3) : HostState :=
  if r.replacementRecency i ≠ 0 then
    h.setCell (.gp (r.replacementContent i)) (h.reg (getRegForIndex i))
  else h

/-- A replacement that was used is stored, whatever its label, since the test for `x0` is always
true. -/
theorem runs_evict (s : GenState) (h : HostState) (i : Fin 3) :
    RunsOn (onlyIf (s.rInfo.replacementRecency i ≠ 0 ∧
        (s.rInfo.replacementContent i ≠ x0 ∨ s.rInfo.replacementContent i ≠ invalidReg))
      (writeBack (s.rInfo.replacementContent i) (getRegForIndex i))) s h () s
      (evicted s.rInfo h i) := by
  unfold evicted
  by_cases hc : s.rInfo.replacementRecency i ≠ 0
  · rw [if_pos hc]
    refine runs_onlyIf_pos ⟨hc, ?_⟩ (runs_feEnc64 rfl rfl)
    -- a content cannot be both of the two registers
    by_cases hx0 : s.rInfo.replacementContent i = x0
    · rw [hx0]
      exact .inr nofun
    · exact .inl hx0
  · rw [if_neg hc]
    exact runs_onlyIf_neg fun h => hc h.1

@[simp] theorem evicted_reg (i : Fin 3) : (evicted r h i).reg = h.reg := by
  unfold evicted
  split
  · rfl
  · rfl

/-- No slot changes but that of the evicted register. -/
theorem evicted_slot (i : Fin 3) {y : Nat} (hy : r.replacementContent i ≠ y) :
    (evicted r h i).cell (.gp y) = h.cell (.gp y) := by
  unfold evicted
  split
  · exact Function.update_of_ne (fun heq => hy (Cell.gp.inj heq).symm) ..
  · rfl

/-- The slot of the evicted register receives its value. -/
theorem evicted_content (hr : r.WellFormed) {i : Fin 3} (hc : needsWriteBack r i) :
    (evicted r h i).cell (.gp (r.replacementContent i)) = h.reg (getRegForIndex i) := by
  unfold evicted
  rw [if_pos fun hzero => hc.2 ((hr.empty i).1 hzero)]
  exact Function.update_self ..

/-- An eviction stays within the frame. -/
theorem frame_evicted (hr : r.WellFormed) (i : Fin 3) : Frame h (evicted r h i) := by
  unfold evicted
  split
  · rename_i hc
    have hslot : isRegFile (.gp (r.replacementContent i)) :=
      (hr.content_lt i).resolve_right fun hinvalid => hc ((hr.empty i).2 hinvalid)
    exact frame_setCell h hslot _
  · exact Frame.refl h

/-- The host after the load of `loadIntoSpecific`; `x0` is zeroed in any case. -/
def loadedSpecific (x : Nat) (required : Bool) (h : HostState) (R : FeReg) : HostState :=
  if required ∧ x ≠ x0 then h.setReg R (h.cell (.gp x)) else zeroedIf (x = x0) h R

/-- The register is loaded from its slot, or cleared for the zero register. -/
theorem runs_loadSpecific (s : GenState) (x : Nat) (required : Bool) (h : HostState) (R : FeReg) :
    RunsOn (loadSpecific x R required) s h () s (loadedSpecific x required h R) := by
  unfold loadSpecific loadedSpecific
  by_cases hc : required ∧ x ≠ x0
  · rw [if_pos hc, if_pos hc]
    exact runs_feEnc64 rfl rfl
  · rw [if_neg hc, if_neg hc]
    exact runs_zeroIf _ _ _

@[simp] theorem loadedSpecific_cell (x : Nat) (required : Bool) (h : HostState) (R : FeReg) :
    (loadedSpecific x required h R).cell = h.cell := by
  unfold loadedSpecific
  split
  · rfl
  · exact zeroedIf_cell ..

theorem loadedSpecific_reg_of_ne (x : Nat) (required : Bool) (h : HostState) {R R' : FeReg}
    (hne : R' ≠ R) : (loadedSpecific x required h R).reg R' = h.reg R' := by
  unfold loadedSpecific
  split
  · exact Function.update_of_ne hne ..
  · exact zeroedIf_reg_of_ne _ h hne

/-- A load delivers the slot's value, and zero for the zero register. -/
theorem loadedSpecific_reg_self (x : Nat) (h : HostState) (R : FeReg) :
    (loadedSpecific x true h R).reg R = if x = x0 then 0#64 else h.cell (.gp x) := by
  unfold loadedSpecific
  by_cases hx : x = x0
  · rw [if_neg fun hc => hc.2 hx, if_pos hx, zeroedIf_reg_self, if_pos hx]
  · rw [if_pos ⟨rfl, hx⟩, if_neg hx]
    exact Function.update_self ..

/-- Such a load stays within the frame. -/
theorem frame_loadedSpecific (x : Nat) (required : Bool) (h : HostState) (i : Fin 3) :
    Frame h (loadedSpecific x required h (getRegForIndex i)) := by
  unfold loadedSpecific
  split
  · exact frame_setReg h i _
  · exact frame_zeroedIf _ h i

/-- The host after two replacements were exchanged as far as it matters. -/
def exchangedRegs (r : RegisterInfo) (h : HostState) (present index : Fin 3) (required : Bool) :
    HostState :=
  if r.replacementRecency index ≠ 0 then
    if required then
      (h.setReg (getRegForIndex index) (h.reg (getRegForIndex present))).setReg
        (getRegForIndex present) (h.reg (getRegForIndex index))
    else h.setReg (getRegForIndex present) (h.reg (getRegForIndex index))
  else if required then h.setReg (getRegForIndex index) (h.reg (getRegForIndex present))
  else h

/-- A value is moved to where it has to lie, and exchanged where that is occupied. -/
theorem runs_moveBetween (s : GenState) (h : HostState) (present index : Fin 3)
    (required : Bool) :
    RunsOn (moveBetween (getRegForIndex index) (getRegForIndex present)
      (s.rInfo.replacementRecency index ≠ 0) required) s h () s
      (exchangedRegs s.rInfo h present index required) := by
  unfold moveBetween exchangedRegs
  simp only [decide_eq_true_eq]
  by_cases hocc : s.rInfo.replacementRecency index ≠ 0
  · rw [if_pos hocc]
    cases required with
    | true =>
        rw [if_pos ⟨hocc, rfl⟩, if_pos rfl]
        exact runs_feEnc64 rfl rfl
    | false =>
        rw [if_neg fun hc => Bool.false_ne_true hc.2, if_pos ⟨hocc, Bool.false_ne_true⟩,
          if_neg Bool.false_ne_true]
        exact runs_feEnc64 rfl rfl
  · rw [if_neg fun hc => hocc hc.1, if_neg fun hc => hocc hc.1, if_neg hocc]
    cases required with
    | true =>
        rw [if_pos rfl]
        exact runs_onlyIf_pos rfl (runs_feEnc64 rfl rfl)
    | false =>
        rw [if_neg Bool.false_ne_true]
        exact runs_onlyIf_neg Bool.false_ne_true

@[simp] theorem exchangedRegs_cell (present index : Fin 3) (required : Bool) :
    (exchangedRegs r h present index required).cell = h.cell := by
  unfold exchangedRegs
  split
  · split
    · rfl
    · rfl
  · split
    · rfl
    · rfl

/-- An exchange changes no third register. -/
theorem exchangedRegs_reg_of_ne {present index : Fin 3} (required : Bool) {R : FeReg}
    (hp : R ≠ getRegForIndex present) (hi : R ≠ getRegForIndex index) :
    (exchangedRegs r h present index required).reg R = h.reg R := by
  unfold exchangedRegs
  split
  · split
    · exact (Function.update_of_ne hp ..).trans (Function.update_of_ne hi ..)
    · exact Function.update_of_ne hp ..
  · split
    · exact Function.update_of_ne hi ..
    · rfl

/-- The register that held the value receives what was in the other one, if that was in use. -/
theorem exchangedRegs_present {present index : Fin 3} (hne : present ≠ index) (required : Bool) :
    (exchangedRegs r h present index required).reg (getRegForIndex present) =
      if r.replacementRecency index ≠ 0 then h.reg (getRegForIndex index)
      else h.reg (getRegForIndex present) := by
  unfold exchangedRegs
  split
  · split
    · exact Function.update_self ..
    · exact Function.update_self ..
  · split
    · exact Function.update_of_ne (regForIndex_ne hne) ..
    · rfl

/-- The register that is asked for holds the value. -/
theorem exchangedRegs_index {present index : Fin 3} (hne : present ≠ index) :
    (exchangedRegs r h present index true).reg (getRegForIndex index) =
      h.reg (getRegForIndex present) := by
  unfold exchangedRegs
  split
  · rw [if_pos rfl]
    exact (Function.update_of_ne (regForIndex_ne hne.symm) ..).trans (Function.update_self ..)
  · rw [if_pos rfl]
    exact Function.update_self ..

/-- An exchange stays within the frame. -/
theorem frame_exchangedRegs (present index : Fin 3) (required : Bool) :
    Frame h (exchangedRegs r h present index required) := by
  unfold exchangedRegs
  split
  · split
    · exact (frame_setReg h index _).trans (frame_setReg _ present _)
    · exact frame_setReg h present _
  · split
    · exact frame_setReg h index _
    · exact Frame.refl h

/-- The host after a register was moved into a replacement from another one. -/
def movedSpecific (r : RegisterInfo) (h : HostState) (x : Nat) (present index : Fin 3)
    (required : Bool) : HostState :=
  zeroedIf (x = x0) (exchangedRegs r h present index required) (getRegForIndex index)

theorem movedSpecific_reg_of_ne {present index j : Fin 3} (required : Bool) (hj : j ≠ index) :
    (movedSpecific r h x present index required).reg (getRegForIndex j) =
      (exchangedRegs r h present index required).reg (getRegForIndex j) :=
  zeroedIf_reg_of_ne _ _ (regForIndex_ne hj)

theorem frame_movedSpecific (present index : Fin 3) (required : Bool) :
    Frame h (movedSpecific r h x present index required) :=
  (frame_exchangedRegs present index required).trans (frame_zeroedIf _ _ index)

/-- The exchange of two replacements keeps the values of the registers they are not asked for. -/
theorem regValue_exchanged (hr : r.WellFormed) {present index : Fin 3} (hne : present ≠ index)
    (hp : r.replacementContent present = x) (hx : x < 32) (required : Bool) {y : Nat}
    (hyx : y ≠ x) (hylt : y < 32) :
    regValue (r.exchanged present index) (movedSpecific r h x present index required) y =
      regValue r h y := by
  have hyvalid : y ≠ invalidReg := by
    unfold invalidReg
    omega
  have hwf := hr.exchange (i := present) (j := index) (by rw [hp]; unfold invalidReg; omega)
  -- `y` lives in a mapped register, in its slot or in a replacement
  cases hmapy : gpMap y with
  | some mapped =>
      rw [regValue_mapped hmapy, regValue_mapped hmapy]
      exact (frame_movedSpecific present index required).reg mapped (gpMap_ne_replacement hmapy)
  | none =>
      cases hfindy : r.find y with
      | none =>
          have hnone := RegisterInfo.find_none hfindy
          have hfindy' : (r.exchanged present index).find y = none :=
            RegisterInfo.find_eq_none fun j => by
              rw [RegisterInfo.exchanged_content]
              exact hnone _
          rw [regValue_slot hmapy hfindy', regValue_slot hmapy hfindy]
          unfold movedSpecific
          rw [zeroedIf_cell, exchangedRegs_cell]
      | some k =>
          have hk := RegisterInfo.find_some hfindy
          have hkp : k ≠ present := fun h => hyx (by rw [← hk, h, hp])
          have hk' : (r.exchanged present index).replacementContent (Equiv.swap present index k) =
              y := by
            rw [RegisterInfo.exchanged_content, Equiv.swap_apply_self, hk]
          rw [regValue_held hmapy (hwf.find hk' hmapy hyvalid), regValue_held hmapy hfindy]
          by_cases hki : k = index
          · -- `y` was where `x` is wanted: it has gone where `x` was
            rw [hki, Equiv.swap_apply_right, movedSpecific_reg_of_ne required hne,
              exchangedRegs_present hne, if_pos]
            intro hzero
            exact hyvalid (by rw [← hk, hki, (hr.empty index).1 hzero])
          · rw [Equiv.swap_apply_of_ne_of_ne hkp hki, movedSpecific_reg_of_ne required hki]
            exact exchangedRegs_reg_of_ne _ (regForIndex_ne hkp) (regForIndex_ne hki)

/-- The exchange of two replacements keeps all values but one that is not required. -/
theorem placed_exchanged (hr : r.WellFormed) (hmap : gpMap x = none) (hx : x < 32)
    {present index : Fin 3} (hne : present ≠ index) (hp : r.replacementContent present = x)
    (required : Bool) :
    Placed r h x required index (r.exchanged present index)
      (movedSpecific r h x present index required) := by
  have hvalid : x ≠ invalidReg := by
    unfold invalidReg
    omega
  have hfind := hr.find hp hmap hvalid
  have hwf := hr.exchange (i := present) (j := index) (by rwa [hp])
  refine ⟨hwf, rfl, ?_, ?_, fun j hj hjx => ?_, fun j hj hjx => ?_, fun hreq => ?_,
    fun y _ hyx hylt => regValue_exchanged hr hne hp hx required hyx hylt, fun y _ => ?_,
    frame_movedSpecific present index required⟩
  · rw [RegisterInfo.exchanged_content, Equiv.swap_apply_right, hp]
  · rw [RegisterInfo.exchanged_recency, if_pos rfl]
    rfl
  · have hjp : j ≠ present := fun h => hjx (by rwa [h])
    rw [RegisterInfo.exchanged_content, RegisterInfo.exchanged_recency, if_neg hj,
      Equiv.swap_apply_of_ne_of_ne hjp hj, movedSpecific_reg_of_ne required hj]
    exact ⟨rfl, rfl, exchangedRegs_reg_of_ne _ (regForIndex_ne hjp) (regForIndex_ne hj)⟩
  · obtain rfl : j = present := hr.distinct j present (hjx.trans hp.symm) (by rwa [hjx])
      (by rwa [hjx])
    rw [RegisterInfo.exchanged_content, RegisterInfo.exchanged_recency, if_neg hj,
      Equiv.swap_apply_left, movedSpecific_reg_of_ne required hj]
    exact ⟨rfl, rfl, exchangedRegs_present hj required⟩
  · unfold movedSpecific
    rw [zeroedIf_reg_self, hreq, exchangedRegs_index hne, regValue_held hmap hfind]
  · unfold movedSpecific
    rw [zeroedIf_cell, exchangedRegs_cell]

/-- A load into a certain replacement ticks, and then places the value. -/
theorem runs_loadIntoSpecific_of {r' : RegisterInfo} {h' : HostState} {index : Fin 3}
    {required : Bool}
    (hplace : RunsOn (placeSpecific x index required (r.find x)) ⟨r.tick, e⟩ h () ⟨r', e⟩ h') :
    RunsOn (loadIntoSpecific x index required) ⟨r, e⟩ h (getRegForIndex index) ⟨r', e⟩ h' :=
  .bind (runs_modifyRInfo _) (.bind runs_getRInfo (.bind hplace (Runs.ret _ _ _)))

/-- A register that is in the right place stays there. -/
theorem loadIntoSpecific_runs_kept {index : Fin 3} (hfind : r.find x = some index)
    (required : Bool) :
    RunsOn (loadIntoSpecific x index required) ⟨r, e⟩ h (getRegForIndex index)
      ⟨r.tick.note index x r.tick.currentRecency, e⟩
      (zeroedIf (x = x0) h (getRegForIndex index)) := by
  refine runs_loadIntoSpecific_of ?_
  rw [hfind]
  unfold placeSpecific
  dsimp only
  rw [if_pos rfl]
  exact .bind (runs_zeroIf _ _ _) (runs_modifyRInfo _)

/-- A register that is in another replacement is moved. -/
theorem loadIntoSpecific_runs_moved {present index : Fin 3} (hfind : r.find x = some present)
    (hne : present ≠ index) (required : Bool) :
    RunsOn (loadIntoSpecific x index required) ⟨r, e⟩ h (getRegForIndex index)
      ⟨r.exchanged present index, e⟩ (movedSpecific r h x present index required) := by
  refine runs_loadIntoSpecific_of ?_
  rw [hfind]
  unfold placeSpecific
  dsimp only
  rw [if_neg hne.symm]
  exact .bind runs_getRInfo (.bind (runs_moveBetween _ _ _ _ _)
    (.bind (runs_modifyRInfo _) (runs_zeroIf _ _ _)))

/-- A register that is in no replacement is loaded. -/
theorem loadIntoSpecific_runs_filled {index : Fin 3} (hfind : r.find x = none)
    (required : Bool) :
    RunsOn (loadIntoSpecific x index required) ⟨r, e⟩ h (getRegForIndex index)
      ⟨r.tick.note index x r.tick.currentRecency, e⟩
      (loadedSpecific x required (evicted r h index) (getRegForIndex index)) := by
  refine runs_loadIntoSpecific_of ?_
  rw [hfind]
  exact .bind runs_getRInfo (.bind (runs_evict ⟨r.tick, e⟩ h index)
    (.bind (runs_loadSpecific _ _ _ _ _) (runs_modifyRInfo _)))

/-- A register that is not mapped is placed in the replacement that is asked for. -/
theorem loadIntoSpecific_runs (hr : r.WellFormed) (hmap : gpMap x = none) (hx : x < 32)
    (index : Fin 3) (required : Bool) :
    ∃ r' h', RunsOn (loadIntoSpecific x index required) ⟨r, e⟩ h (getRegForIndex index)
        ⟨r', e⟩ h' ∧ Placed r h x required index r' h' := by
  have hvalid : x ≠ invalidReg := by
    unfold invalidReg
    omega
  cases hfind : r.find x with
  | some present =>
      have hp := RegisterInfo.find_some hfind
      by_cases hip : present = index
      · subst hip
        have hloaded := loaded_present (h := h) hr hmap hx required hp
        refine ⟨_, _, loadIntoSpecific_runs_kept hfind required,
          hloaded.placed (fun j hj hjx => hj ?_) fun _ _ => by rw [zeroedIf_cell]⟩
        exact hr.distinct j present (hjx.trans hp.symm) (by rwa [hjx]) (by rwa [hjx])
      · exact ⟨_, _, loadIntoSpecific_runs_moved hfind hip required,
          placed_exchanged hr hmap hx hip hp required⟩
  | none =>
      have hloaded : Loaded r h x required index (r.tick.note index x r.tick.currentRecency)
          (loadedSpecific x required (evicted r h index) (getRegForIndex index)) := by
        refine loaded_absent hr hmap hx hfind (evicted_reg _) (fun y hy => evicted_slot _ hy)
          (evicted_content hr) (frame_evicted hr _) (loadedSpecific_cell ..)
          (fun j hj => loadedSpecific_reg_of_ne _ _ _ (regForIndex_ne hj)) (fun hreq => ?_)
          (frame_loadedSpecific ..)
        rw [hreq]
        exact loadedSpecific_reg_self ..
      exact ⟨_, _, loadIntoSpecific_runs_filled hfind required,
        hloaded.placed (fun j _ => RegisterInfo.find_none hfind j) fun h => absurd hfind h⟩

end Specific

end RiaJit.Translate
