import RiaJit.Gen.BlockSimulation

/-!
# The allocator of replacement registers

Runs of the operations that `util.h` offers on the replacement registers, from the
empty cache, with the code they emit. A step serves any request from any state of
such a run: it keeps what `r_info` must satisfy and every value that it was not
asked to give up, and the host register it returns holds the value it was asked for.
-/

set_option autoImplicit false

namespace RiaJit.Translate

open EmitLogic X86

/-! ## Requests -/

/-- The operations on the replacement registers. One of them is given by its index; for
any other host register the source panics. `invalidateReplacement` writes back. -/
inductive CacheRequest where
  | getRs1 (instr : RiscInstr)
  | getRs2 (instr : RiscInstr)
  | getRd (instr : RiscInstr)
  | getRs1Into (instr : RiscInstr) (into : Fin 3)
  | getRs2Into (instr : RiscInstr) (into : Fin 3)
  | getRdHinted (instr : RiscInstr) (hint : Fin 3)
  | loadIntoReplacement (requested : Nat) (requireValue : Bool)
  | loadIntoSpecific (candidate : Nat) (destination : Fin 3) (requireValue : Bool)
  | invalidateReplacement (replacement : Fin 3)
  | invalidateOldest
  | invalidateAllReplacements
  deriving DecidableEq

namespace CacheRequest

/-- The operation itself, with the host register it returns. -/
def perform (flags : Flags) : CacheRequest → Gen (Option FeReg)
  | getRs1 instr => do return some (← Translate.getRs1 flags instr)
  | getRs2 instr => do return some (← Translate.getRs2 flags instr)
  | getRd instr => do return some (← Translate.getRd flags instr)
  | getRs1Into instr into => do return some (← Translate.getRs1Into flags instr into)
  | getRs2Into instr into => do return some (← Translate.getRs2Into flags instr into)
  | getRdHinted instr hint => do return some (← Translate.getRdHinted flags instr hint)
  | loadIntoReplacement requested requireValue => do
      return some (← Translate.loadIntoReplacement requested requireValue)
  | loadIntoSpecific candidate destination requireValue => do
      return some (← Translate.loadIntoSpecific candidate destination requireValue)
  | invalidateReplacement replacement => do
      Translate.invalidateReplacement replacement
      return none
  | invalidateOldest => do return some (← Translate.invalidateOldest)
  | invalidateAllReplacements => do
      Translate.invalidateAllReplacements
      return none

/-- The register whose value is requested. -/
def source : CacheRequest → Option Nat
  | getRs1 instr | getRs1Into instr _ => some instr.regSrc1
  | getRs2 instr | getRs2Into instr _ => some instr.regSrc2
  | loadIntoReplacement requested true => some requested
  | loadIntoSpecific candidate _ true => some candidate
  | _ => none

/-- The register that is requested as a destination: its value is not required. -/
def destination : CacheRequest → Option Nat
  | getRd instr | getRdHinted instr _ => some instr.regDest
  | loadIntoReplacement requested false => some requested
  | loadIntoSpecific candidate _ false => some candidate
  | _ => none

/-- The registers of a request are guest registers. -/
def InRange (q : CacheRequest) : Prop :=
  ∀ x, q.source = some x ∨ q.destination = some x → x < 32

end CacheRequest

/-! ## Values -/

/-- The content of the replacement that is labelled with a register, or its slot. -/
def heldValue (r : RegisterInfo) (h : HostState) (x : Nat) : BitVec 64 :=
  match r.find x with
  | some i => h.reg (getRegForIndex i)
  | none => h.cell (.gp x)

/-- The registers that the replacements are a cache of. -/
structure Cached (x : Nat) : Prop where
  unmapped : gpMap x = none
  ne_x0 : x ≠ x0
  lt : x < 32

/-- The value that a request for a source asks for. The two loads go to the replacements
and the slots even where the register is mapped. -/
def CacheRequest.sourceValue (r : RegisterInfo) (h : HostState) (x : Nat) :
    CacheRequest → BitVec 64
  | .loadIntoReplacement _ _ | .loadIntoSpecific _ _ _ =>
      if x = x0 then 0#64 else heldValue r h x
  | _ => if x = x0 then 0#64 else regValue r h x

section Values

variable {r r' : RegisterInfo} {h h₁ h' : HostState} {x : Nat}

theorem regValue_unmapped (hmap : gpMap x = none) : regValue r h x = heldValue r h x := by
  cases hfind : r.find x with
  | none => simp [regValue, heldValue, hmap, hfind]
  | some i => simp [regValue, heldValue, hmap, hfind]

theorem Counted.held (hc : Counted h h₁) (y : Nat) : heldValue r h₁ y = heldValue r h y := by
  unfold heldValue
  rw [hc.reg, hc.slot]

end Values

/-! ## Loads of any register -/

/-- What holds after a register, mapped or not, was loaded into a replacement. -/
structure Obtained (r : RegisterInfo) (h : HostState) (x : Nat) (required : Bool) (i : Fin 3)
    (r' : RegisterInfo) (h' : HostState) : Prop where
  wf : r'.WellFormed
  value : required = true →
    h'.reg (getRegForIndex i) = if x = x0 then 0#64 else heldValue r h x
  values : ∀ y, Cached y → (required = false → y ≠ x) → heldValue r' h' y = heldValue r h y
  frame : Frame h h'

section Obtained

variable {r r' : RegisterInfo} {h h' : HostState} {e : Bool} {x : Nat} {i : Fin 3}
  {required : Bool}

/-- An unmapped register: its own value stays where it is required. -/
theorem obtained_of_unmapped (hmap : gpMap x = none) (hx : x < 32) (hwf : r'.WellFormed)
    (hcontent : r'.replacementContent i = x)
    (hvalue : required = true →
      h'.reg (getRegForIndex i) = if x = x0 then 0#64 else regValue r h x)
    (hvalues : ∀ y, y ≠ x0 → y ≠ x → y < 32 → regValue r' h' y = regValue r h y)
    (hframe : Frame h h') : Obtained r h x required i r' h' := by
  rw [regValue_unmapped hmap] at hvalue
  refine ⟨hwf, hvalue, fun y hy hreq => ?_, hframe⟩
  rw [← regValue_unmapped hy.unmapped, ← regValue_unmapped hy.unmapped]
  by_cases hyx : y = x
  · have hvalid : x ≠ invalidReg := by
      unfold invalidReg
      omega
    have hrequired : required = true := by
      cases required with
      | true => rfl
      | false => exact absurd hyx (hreq rfl)
    subst hyx
    rw [regValue_held hmap (hwf.find hcontent hmap hvalid), hvalue hrequired, if_neg hy.ne_x0,
      regValue_unmapped hmap]
  · exact hvalues y hy.ne_x0 hyx hy.lt

/-- A mapped register: the cached ones are all others. -/
theorem obtained_of_mapped (hmap : gpMap x ≠ none) (hwf : r'.WellFormed)
    (hvalue : required = true → h'.reg (getRegForIndex i) = heldValue r h x)
    (hvalues : ∀ y, y ≠ x0 → y ≠ x → y < 32 → regValue r' h' y = regValue r h y)
    (hframe : Frame h h') : Obtained r h x required i r' h' := by
  have hx0 : x ≠ x0 := fun heq => hmap (by rw [heq, gpMap_x0])
  refine ⟨hwf, fun hreq => by rw [hvalue hreq, if_neg hx0], fun y hy _ => ?_, hframe⟩
  have hyx : y ≠ x := fun heq => hmap (by rw [← heq, hy.unmapped])
  rw [← regValue_unmapped hy.unmapped, ← regValue_unmapped hy.unmapped]
  exact hvalues y hy.ne_x0 hyx hy.lt

/-- A mapped register of which a replacement already holds a copy. -/
theorem obtained_present (hr : r.WellFormed) (hmap : gpMap x ≠ none) (hx : x < 32)
    (hfind : r.find x = some i) (required : Bool) :
    Obtained r h x required i (r.tick.note i x r.tick.currentRecency)
      (zeroedIf (x = x0) h (getRegForIndex i)) := by
  have hx0 : x ≠ x0 := fun heq => hmap (by rw [heq, gpMap_x0])
  have hi := RegisterInfo.find_some hfind
  refine obtained_of_mapped hmap (hr.load i hx fun hnone => absurd hnone hmap) (fun _ => ?_)
    (fun y hy hyx hlt => ?_) (frame_zeroedIf _ h i)
  · rw [zeroedIf_reg_self, if_neg hx0]
    unfold heldValue
    rw [hfind]
  · exact regValue_replace hr rfl (frame_zeroedIf _ h i)
      (fun j hj => zeroedIf_reg_of_ne _ h (regForIndex_ne hj))
      (fun _ _ => by rw [zeroedIf_cell]) (fun hne => absurd hi hne) hy hyx hlt

/-- A mapped register of which no replacement holds a copy, into one that `h₁` has written
back. -/
theorem obtained_absent (hr : r.WellFormed) (hmap : gpMap x ≠ none) (hx : x < 32)
    (hfind : r.find x = none) {h₁ : HostState} (hreg : h₁.reg = h.reg)
    (hslot : ∀ y, r.replacementContent i ≠ y → h₁.cell (.gp y) = h.cell (.gp y))
    (hback : needsWriteBack r i →
      h₁.cell (.gp (r.replacementContent i)) = h.reg (getRegForIndex i))
    (hframe : Frame h h₁) (hcell : h'.cell = h₁.cell)
    (hothers : ∀ j, j ≠ i → h'.reg (getRegForIndex j) = h₁.reg (getRegForIndex j))
    (hvalue : required = true →
      h'.reg (getRegForIndex i) = if x = x0 then 0#64 else h₁.cell (.gp x))
    (hframe' : Frame h₁ h') :
    Obtained r h x required i (r.tick.note i x r.tick.currentRecency) h' := by
  have hx0 : x ≠ x0 := fun heq => hmap (by rw [heq, gpMap_x0])
  have hslots : ∀ y, r.replacementContent i ≠ y → h'.cell (.gp y) = h.cell (.gp y) :=
    fun y hy => by rw [hcell, hslot y hy]
  refine obtained_of_mapped hmap (hr.load i hx fun hnone => absurd hnone hmap) (fun hreq => ?_)
    (fun y hy hyx hlt => ?_) (hframe.trans hframe')
  · rw [hvalue hreq, if_neg hx0, hslot x (RegisterInfo.find_none hfind i)]
    unfold heldValue
    rw [hfind]
  · refine regValue_replace hr rfl (hframe.trans hframe')
      (fun j hj => by rw [hothers j hj, hreg]) hslots (fun _ hc => ?_) hy hyx hlt
    rw [hcell, hback hc]

/-- A mapped register of which another replacement holds a copy. -/
theorem obtained_moved (hr : r.WellFormed) (hmap : gpMap x ≠ none) (hx : x < 32)
    {present : Fin 3} (hfind : r.find x = some present) (hne : present ≠ i) (required : Bool) :
    Obtained r h x required i (r.exchanged present i)
      (movedSpecific r h x present i required) := by
  have hx0 : x ≠ x0 := fun heq => hmap (by rw [heq, gpMap_x0])
  have hp := RegisterInfo.find_some hfind
  have hvalid : r.replacementContent present ≠ invalidReg := by
    rw [hp]
    unfold invalidReg
    omega
  refine obtained_of_mapped hmap (hr.exchange hvalid) (fun hreq => ?_)
    (fun y _ hyx hlt => regValue_exchanged hr hne hp hx required hyx hlt)
    (frame_movedSpecific present i required)
  unfold movedSpecific heldValue
  rw [zeroedIf_reg_self, if_neg hx0, hreq, exchangedRegs_index hne, hfind]

/-- `loadIntoReplacement` of any register. -/
theorem loadIntoReplacement_obtained (hr : r.WellFormed) (hx : x < 32) (required : Bool) :
    ∃ r' h', RunsOn (loadIntoReplacement x required) ⟨r, e⟩ h (getRegForIndex (chosen r x))
        ⟨r', e⟩ h' ∧ Obtained r h x required (chosen r x) r' h' := by
  by_cases hmap : gpMap x = none
  · obtain ⟨r', h', hrun, hl, -⟩ :=
      loadIntoReplacement_runs (h := h) (e := e) hr hmap hx required
    refine ⟨r', h', hrun, obtained_of_unmapped hmap hx hl.wf ?_ hl.value hl.values hl.frame⟩
    rw [hl.content, Function.update_self]
  · unfold chosen
    cases hfind : r.find x with
    | some i =>
        exact ⟨_, _, loadIntoReplacement_runs_present hfind required,
          obtained_present hr hmap hx hfind required⟩
    | none =>
        refine ⟨_, _, loadIntoReplacement_runs_absent hfind required,
          obtained_absent hr hmap hx hfind (writtenBack_reg _)
            (fun y hy => writtenBack_slot _ (.inr hy)) writtenBack_content
            (frame_writtenBack hr _) (loadedValue_cell ..)
            (fun j hj => loadedValue_reg_of_ne _ _ _ (regForIndex_ne hj)) (fun hreq => ?_)
            (frame_loadedValue ..)⟩
        rw [hreq]
        exact loadedValue_reg_self ..

/-- `loadIntoSpecific` of any register. -/
theorem loadIntoSpecific_obtained (hr : r.WellFormed) (hx : x < 32) (i : Fin 3)
    (required : Bool) :
    ∃ r' h', RunsOn (loadIntoSpecific x i required) ⟨r, e⟩ h (getRegForIndex i) ⟨r', e⟩ h' ∧
      Obtained r h x required i r' h' := by
  by_cases hmap : gpMap x = none
  · obtain ⟨r', h', hrun, hp⟩ := loadIntoSpecific_runs (h := h) (e := e) hr hmap hx i required
    exact ⟨r', h', hrun,
      obtained_of_unmapped hmap hx hp.wf hp.content hp.value hp.values hp.frame⟩
  · cases hfind : r.find x with
    | some present =>
        by_cases hpi : present = i
        · subst hpi
          exact ⟨_, _, loadIntoSpecific_runs_kept hfind required,
            obtained_present hr hmap hx hfind required⟩
        · exact ⟨_, _, loadIntoSpecific_runs_moved hfind hpi required,
            obtained_moved hr hmap hx hfind hpi required⟩
    | none =>
        refine ⟨_, _, loadIntoSpecific_runs_filled hfind required,
          obtained_absent hr hmap hx hfind (evicted_reg _) (fun y hy => evicted_slot _ hy)
            (evicted_content hr) (frame_evicted hr _) (loadedSpecific_cell ..)
            (fun j hj => loadedSpecific_reg_of_ne _ _ _ (regForIndex_ne hj)) (fun hreq => ?_)
            (frame_loadedSpecific ..)⟩
        rw [hreq]
        exact loadedSpecific_reg_self ..

end Obtained

/-! ## Steps -/

/-- No register that the replacements are a cache of loses its value, `d` apart. -/
structure Keeps (d : Option Nat) (r : RegisterInfo) (h : HostState) (r' : RegisterInfo)
    (h' : HostState) : Prop where
  wf : r'.WellFormed
  values : ∀ y, Cached y → d ≠ some y → heldValue r' h' y = heldValue r h y
  frame : Frame h h'

/-- A request was served: no value but the destination's is lost, the host register that is
returned holds the requested value, and with all replacements emptied the slots hold all. -/
structure Served (q : CacheRequest) (r : RegisterInfo) (h : HostState) (result : Option FeReg)
    (r' : RegisterInfo) (h' : HostState) : Prop where
  keeps : Keeps q.destination r h r' h'
  source : ∀ x, q.source = some x → ∃ R, result = some R ∧ h'.reg R = q.sourceValue r h x
  flushed : q = .invalidateAllReplacements →
    ∀ y, Cached y → h'.cell (.gp y) = heldValue r h y

section Steps

variable {r r' r'' : RegisterInfo} {h h₁ h' h'' : HostState} {e : Bool} {x : Nat} {i : Fin 3}
  {required : Bool} {d : Option Nat}

theorem Keeps.trans (h₁ : Keeps d r h r' h') (h₂ : Keeps d r' h' r'' h'') : Keeps d r h r'' h'' :=
  ⟨h₂.wf, fun y hy hd => (h₂.values y hy hd).trans (h₁.values y hy hd), h₁.frame.trans h₂.frame⟩

theorem Counted.keeps (hr : r.WellFormed) (hc : Counted h h₁) : Keeps d r h r h₁ :=
  ⟨hr, fun y _ _ => hc.held y, hc.frame⟩

theorem Obtained.keeps (ho : Obtained r h x required i r' h')
    (hd : required = false → d = some x) : Keeps d r h r' h' := by
  refine ⟨ho.wf, fun y hy hne => ho.values y hy fun hreq hyx => ?_, ho.frame⟩
  rw [hyx] at hne
  exact hne (hd hreq)

theorem Copied.keeps (hc : Copied r h x i r' h') : Keeps d r h r' h' := by
  refine ⟨hc.wf, fun y hy _ => ?_, hc.frame⟩
  rw [← regValue_unmapped hy.unmapped, ← regValue_unmapped hy.unmapped]
  exact hc.values y hy.ne_x0 hy.lt

/-- Emptying a replacement writes its value back. -/
theorem keeps_invalidate (hr : r.WellFormed) (i : Fin 3) :
    Keeps d r h (r.note i invalidReg 0) (writtenBack r h i) := by
  refine ⟨hr.clear i, fun y hy _ => ?_, frame_writtenBack hr i⟩
  rw [← regValue_unmapped hy.unmapped, ← regValue_unmapped hy.unmapped]
  exact regValue_invalidate hr i hy.ne_x0 hy.lt

variable (flags : Flags)

/-- `getRs1` and `getRs2`. -/
theorem getSrc_keeps (hr : r.WellFormed) (hx : x < 32) :
    ∃ R r' h', RunsOn (getSrc flags x) ⟨r, e⟩ h R ⟨r', e⟩ h' ∧ Keeps none r h r' h' ∧
      h'.reg R = if x = x0 then 0#64 else regValue r h x := by
  obtain ⟨h₁, hrun₁, hc⟩ := recordGpProfiler_runs (h := h) flags x ⟨r, e⟩
  cases hmap : gpMap x with
  | some mapped =>
      have hx0 : x ≠ x0 := fun heq => by
        rw [heq, gpMap_x0] at hmap
        exact absurd hmap nofun
      refine ⟨mapped, r, h₁, .bind hrun₁ ?_, hc.keeps hr, ?_⟩
      · rw [hmap]
        exact Runs.ret _ _ _
      · rw [if_neg hx0, regValue_mapped hmap, hc.reg]
  | none =>
      obtain ⟨r', h', hrun, ho⟩ :=
        loadIntoReplacement_obtained (h := h₁) (e := e) hr hx true
      refine ⟨getRegForIndex (chosen r x), r', h', .bind hrun₁ ?_,
        (hc.keeps hr).trans (ho.keeps nofun), ?_⟩
      · rw [hmap]
        exact hrun
      · rw [ho.value rfl, hc.held, regValue_unmapped hmap]

/-- `getRs1Into` and `getRs2Into`. -/
theorem getSrcInto_keeps (hr : r.WellFormed) (hx : x < 32) (i : Fin 3) :
    ∃ r' h', RunsOn (getSrcInto flags x i) ⟨r, e⟩ h (getRegForIndex i) ⟨r', e⟩ h' ∧
      Keeps none r h r' h' ∧
      h'.reg (getRegForIndex i) = if x = x0 then 0#64 else regValue r h x := by
  obtain ⟨h₁, hrun₁, hc⟩ := recordGpProfiler_runs (h := h) flags x ⟨r, e⟩
  cases hmap : gpMap x with
  | some mapped =>
      have hx0 : x ≠ x0 := fun heq => by
        rw [heq, gpMap_x0] at hmap
        exact absurd hmap nofun
      have hcopied := copied_spec (h := h₁) hr hx hmap i
      refine ⟨_, _, .bind hrun₁ ?_, (hc.keeps hr).trans hcopied.keeps, ?_⟩
      · rw [hmap]
        exact getSrcInto_copies hmap i
      · rw [if_neg hx0, hcopied.value, hc.value]
  | none =>
      obtain ⟨r', h', hrun, ho⟩ := loadIntoSpecific_obtained (h := h₁) (e := e) hr hx i true
      refine ⟨r', h', .bind hrun₁ ?_, (hc.keeps hr).trans (ho.keeps nofun), ?_⟩
      · rw [hmap]
        exact hrun
      · rw [ho.value rfl, hc.held, regValue_unmapped hmap]

/-- `getRd`. -/
theorem getRd_keeps (hr : r.WellFormed) {instr : RiscInstr} (hx : instr.regDest < 32) :
    ∃ R r' h', RunsOn (getRd flags instr) ⟨r, e⟩ h R ⟨r', e⟩ h' ∧
      Keeps (some instr.regDest) r h r' h' := by
  obtain ⟨h₁, hrun₁, hc⟩ := recordGpProfiler_runs (h := h) flags instr.regDest ⟨r, e⟩
  cases hmap : gpMap instr.regDest with
  | some mapped =>
      refine ⟨mapped, r, h₁, .bind hrun₁ ?_, hc.keeps hr⟩
      rw [hmap]
      exact Runs.ret _ _ _
  | none =>
      obtain ⟨r', h', hrun, ho⟩ := loadIntoReplacement_obtained (h := h₁) (e := e) hr hx false
      refine ⟨getRegForIndex (chosen r instr.regDest), r', h', .bind hrun₁ ?_,
        (hc.keeps hr).trans (ho.keeps fun _ => rfl)⟩
      rw [hmap]
      exact hrun

/-- `getRdHinted`. -/
theorem getRdHinted_keeps (hr : r.WellFormed) {instr : RiscInstr} (hx : instr.regDest < 32)
    (hint : Fin 3) :
    ∃ R r' h', RunsOn (getRdHinted flags instr hint) ⟨r, e⟩ h R ⟨r', e⟩ h' ∧
      Keeps (some instr.regDest) r h r' h' := by
  obtain ⟨h₁, hrun₁, hc⟩ := recordGpProfiler_runs (h := h) flags instr.regDest ⟨r, e⟩
  cases hmap : gpMap instr.regDest with
  | some mapped =>
      refine ⟨mapped, r, h₁, .bind hrun₁ ?_, hc.keeps hr⟩
      rw [hmap]
      exact Runs.ret _ _ _
  | none =>
      obtain ⟨r', h', hrun, ho⟩ := loadIntoSpecific_obtained (h := h₁) (e := e) hr hx hint false
      refine ⟨getRegForIndex hint, r', h', .bind hrun₁ ?_,
        (hc.keeps hr).trans (ho.keeps fun _ => rfl)⟩
      rw [hmap]
      exact hrun

/-- `invalidateOldest`: where the oldest replacement is empty, nothing happens. -/
theorem invalidateOldest_keeps (hr : r.WellFormed) :
    ∃ r' h', RunsOn invalidateOldest ⟨r, e⟩ h (getRegForIndex r.oldest) ⟨r', e⟩ h' ∧
      Keeps d r h r' h' ∧ r'.replacementContent r.oldest = invalidReg := by
  by_cases hempty : r.replacementContent r.oldest = invalidReg
  · exact ⟨r, h, invalidateOldest_runs_empty hempty, ⟨hr, fun _ _ _ => rfl, Frame.refl h⟩, hempty⟩
  · exact ⟨_, _, invalidateOldest_runs_held hr hempty, keeps_invalidate hr _, by simp⟩

/-- `invalidateAllReplacements`: no replacement is left that a value could lie in. -/
theorem invalidateAllReplacements_keeps (hr : r.WellFormed) :
    ∃ r' h', RunsOn invalidateAllReplacements ⟨r, e⟩ h () ⟨r', e⟩ h' ∧ Keeps d r h r' h' ∧
      r'.Empty := by
  have hr₀ := hr.clear 0
  have hr₁ := hr₀.clear 1
  refine ⟨_, _, .bind (invalidateReplacement_runs r h e 0)
    (.bind (invalidateReplacement_runs _ _ e 1) (invalidateReplacement_runs _ _ e 2)),
    (keeps_invalidate hr 0).trans ((keeps_invalidate hr₀ 1).trans (keeps_invalidate hr₁ 2)),
    fun i => ?_⟩
  match i with
  | 0 => rfl
  | 1 => rfl
  | 2 => rfl

theorem heldValue_empty (hempty : r.Empty) (hy : Cached x) :
    heldValue r h x = h.cell (.gp x) := by
  have hfind : r.find x = none := RegisterInfo.find_eq_none fun i heq => by
    have hlt := hy.lt
    rw [← heq, hempty i] at hlt
    exact absurd hlt (by decide)
  unfold heldValue
  rw [hfind]

end Steps

/-- From any state that is well-formed every request is served, and its code runs. -/
theorem CacheRequest.served (flags : Flags) (q : CacheRequest) (hq : q.InRange) {r : RegisterInfo}
    (hr : r.WellFormed) (e : Bool) (h : HostState) :
    ∃ result r' h', RunsOn (q.perform flags) ⟨r, e⟩ h result ⟨r', e⟩ h' ∧
      Served q r h result r' h' := by
  -- where a register is given back, it is the one that the operation returns
  have hsource : ∀ {y : Nat} {R : FeReg} {h' : HostState} {v : Nat → BitVec 64},
      h'.reg R = v y → ∀ x, some y = some x → ∃ R', some R = some R' ∧ h'.reg R' = v x := by
    intro y R h' v hvalue x hx
    obtain rfl := Option.some.inj hx
    exact ⟨R, rfl, hvalue⟩
  cases q with
  | getRs1 instr =>
      obtain ⟨R, r', h', hrun, hk, hv⟩ :=
        getSrc_keeps (h := h) (e := e) flags hr (hq _ (.inl rfl))
      exact ⟨_, r', h', .bind hrun (Runs.ret _ _ _), hk, hsource hv, nofun⟩
  | getRs2 instr =>
      obtain ⟨R, r', h', hrun, hk, hv⟩ :=
        getSrc_keeps (h := h) (e := e) flags hr (hq _ (.inl rfl))
      exact ⟨_, r', h', .bind hrun (Runs.ret _ _ _), hk, hsource hv, nofun⟩
  | getRd instr =>
      obtain ⟨R, r', h', hrun, hk⟩ := getRd_keeps (h := h) (e := e) flags hr (hq _ (.inr rfl))
      exact ⟨_, r', h', .bind hrun (Runs.ret _ _ _), hk, nofun, nofun⟩
  | getRs1Into instr into =>
      obtain ⟨r', h', hrun, hk, hv⟩ :=
        getSrcInto_keeps (h := h) (e := e) flags hr (hq _ (.inl rfl)) into
      exact ⟨_, r', h', .bind hrun (Runs.ret _ _ _), hk, hsource hv, nofun⟩
  | getRs2Into instr into =>
      obtain ⟨r', h', hrun, hk, hv⟩ :=
        getSrcInto_keeps (h := h) (e := e) flags hr (hq _ (.inl rfl)) into
      exact ⟨_, r', h', .bind hrun (Runs.ret _ _ _), hk, hsource hv, nofun⟩
  | getRdHinted instr hint =>
      obtain ⟨R, r', h', hrun, hk⟩ :=
        getRdHinted_keeps (h := h) (e := e) flags hr (hq _ (.inr rfl)) hint
      exact ⟨_, r', h', .bind hrun (Runs.ret _ _ _), hk, nofun, nofun⟩
  | loadIntoReplacement requested requireValue =>
      cases requireValue with
      | true =>
          obtain ⟨r', h', hrun, ho⟩ :=
            loadIntoReplacement_obtained (h := h) (e := e) hr (hq _ (.inl rfl)) true
          exact ⟨_, r', h', .bind hrun (Runs.ret _ _ _), ho.keeps nofun, hsource (ho.value rfl),
            nofun⟩
      | false =>
          obtain ⟨r', h', hrun, ho⟩ :=
            loadIntoReplacement_obtained (h := h) (e := e) hr (hq _ (.inr rfl)) false
          exact ⟨_, r', h', .bind hrun (Runs.ret _ _ _), ho.keeps fun _ => rfl, nofun, nofun⟩
  | loadIntoSpecific candidate destination requireValue =>
      cases requireValue with
      | true =>
          obtain ⟨r', h', hrun, ho⟩ :=
            loadIntoSpecific_obtained (h := h) (e := e) hr (hq _ (.inl rfl)) destination true
          exact ⟨_, r', h', .bind hrun (Runs.ret _ _ _), ho.keeps nofun, hsource (ho.value rfl),
            nofun⟩
      | false =>
          obtain ⟨r', h', hrun, ho⟩ :=
            loadIntoSpecific_obtained (h := h) (e := e) hr (hq _ (.inr rfl)) destination false
          exact ⟨_, r', h', .bind hrun (Runs.ret _ _ _), ho.keeps fun _ => rfl, nofun, nofun⟩
  | invalidateReplacement replacement =>
      exact ⟨_, _, _, .bind (invalidateReplacement_runs r h e replacement) (Runs.ret _ _ _),
        keeps_invalidate hr replacement, nofun, nofun⟩
  | invalidateOldest =>
      obtain ⟨r', h', hrun, hk, -⟩ := invalidateOldest_keeps (h := h) (e := e) hr
      exact ⟨_, r', h', .bind hrun (Runs.ret _ _ _), hk, nofun, nofun⟩
  | invalidateAllReplacements =>
      obtain ⟨r', h', hrun, hk, hempty⟩ := invalidateAllReplacements_keeps (h := h) (e := e) hr
      refine ⟨_, r', h', .bind hrun (Runs.ret _ _ _), hk, nofun, fun _ y hy => ?_⟩
      rw [← heldValue_empty hempty hy]
      exact hk.values y hy nofun

/-! ## Runs -/

/-- The replacements before the first request: all are empty. -/
def emptyCache : RegisterInfo := (TransState.initial 0#64).rInfo

/-- The states that a sequence of requests leads to from the empty cache, while the code that
they emit runs from `h₀`. -/
inductive Performed (flags : Flags) (h₀ : HostState) :
    List CacheRequest → GenState → HostState → Prop
  | start : Performed flags h₀ [] ⟨emptyCache, false⟩ h₀
  | request {qs : List CacheRequest} {q : CacheRequest} {s s' : GenState} {h h' : HostState}
      {result : Option FeReg} (hqs : Performed flags h₀ qs s h) (hq : q.InRange)
      (hrun : RunsOn (q.perform flags) s h result s' h') :
      Performed flags h₀ (qs ++ [q]) s' h'

section Runs

variable {flags : Flags} {h₀ h : HostState} {qs : List CacheRequest} {s : GenState}

/-- What all requests of a sequence keep. -/
structure KeptBy (h₀ : HostState) (qs : List CacheRequest) (s : GenState) (h : HostState) :
    Prop where
  wf : s.rInfo.WellFormed
  encoded : s.err = false
  values : ∀ y, Cached y → (∀ q ∈ qs, q.destination ≠ some y) →
    heldValue s.rInfo h y = heldValue emptyCache h₀ y

theorem Performed.kept (hqs : Performed flags h₀ qs s h) : KeptBy h₀ qs s h := by
  induction hqs with
  | start => exact ⟨wellFormed_initial 0#64, rfl, fun _ _ _ => rfl⟩
  | @request qs q s s' h h' result _ hq hrun ih =>
      obtain ⟨_, r', h'', hrun', hserved⟩ := q.served flags hq ih.wf s.err h
      obtain ⟨-, rfl, rfl⟩ := hrun.unique hrun'
      refine ⟨hserved.keeps.wf, ih.encoded, fun y hy hdest => ?_⟩
      have hlast := hdest q (List.mem_append_right _ (List.mem_singleton_self q))
      rw [hserved.keeps.values y hy hlast]
      exact ih.values y hy fun p hp => hdest p (List.mem_append_left _ hp)

/-- In every sequence of requests from the empty cache the labels and the times stay in order,
no value is lost but a destination's, and every further request is served. -/
theorem allocator_loses_no_value (hqs : Performed flags h₀ qs s h) :
    KeptBy h₀ qs s h ∧ ∀ q : CacheRequest, q.InRange → ∃ result s' h',
      RunsOn (q.perform flags) s h result s' h' ∧ Performed flags h₀ (qs ++ [q]) s' h' ∧
        Served q s.rInfo h result s'.rInfo h' := by
  have hkept := hqs.kept
  refine ⟨hkept, fun q hq => ?_⟩
  obtain ⟨result, r', h', hrun, hserved⟩ := q.served flags hq hkept.wf s.err h
  exact ⟨result, ⟨r', s.err⟩, h', hrun, hqs.request hq hrun, hserved⟩

end Runs

/-- `SLL x5, x6, x7`. -/
def unmappedShift : RiscInstr := ⟨0x1000#64, .sll, .regReg, 6, 7, 5, 0#64⟩

/-- The requests of the shift: its amount in `CX`, which is then asked for again. -/
def shiftRequests : List CacheRequest := [.getRs2Into unmappedShift 2, .getRdHinted unmappedShift 2]

/-- A host with ones in the register file. -/
def onesHost : HostState := ⟨fun _ => 0#64, none, fun _ => 1#64, fun _ => 0#8, []⟩

theorem allocator_loses_no_value_shift :
    ∃ s h, Performed {} onesHost shiftRequests s h ∧ heldValue s.rInfo h 7 = 1#64 := by
  obtain ⟨-, hserve⟩ := allocator_loses_no_value (@Performed.start {} onesHost)
  obtain ⟨_, s, h, -, hqs, -⟩ := hserve (.getRs2Into unmappedShift 2) (by
    rintro x (hx | hx)
    · obtain rfl := Option.some.inj hx
      decide
    · exact absurd hx nofun)
  obtain ⟨-, hserve⟩ := allocator_loses_no_value hqs
  obtain ⟨_, s', h', -, hqs', -⟩ := hserve (.getRdHinted unmappedShift 2) (by
    rintro x (hx | hx)
    · exact absurd hx nofun
    · obtain rfl := Option.some.inj hx
      decide)
  -- the amount was moved out of `CX` for the destination
  have hheld := (allocator_loses_no_value hqs').1.values 7 ⟨rfl, by decide, by decide⟩ (by decide)
  exact ⟨s', h', hqs', hheld⟩

end RiaJit.Translate
