import RiaJit.Gen.Operands

/-!
# Operands in two given replacements

Where both sources of an instruction are forced into given replacements, the second load
may take the first one's value away: if both are the same unmapped register, it is moved to
the second replacement, and the first is left with what had to give way. `displaced` says
which replacement that value comes from.
-/

set_option autoImplicit false

namespace RiaJit.Translate

open EmitLogic X86

/-- The replacement whose content ends up in `first` after `x` was placed there and then `y`
in `second`; `none` if `first` has the value of `x`. -/
def displaced (r : RegisterInfo) (x y : Nat) (first second : Fin 3) : Option (Fin 3) :=
  if x = y ∧ gpMap x = none then
    if r.replacementContent second = x then
      if r.replacementRecency first ≠ 0 then some first else none
    else if r.replacementRecency second ≠ 0 then some second else none
  else none

/-- The value in `first` after that. -/
def firstValue (g : GuestState) (r : RegisterInfo) (h : HostState) (x y : Nat)
    (first second : Fin 3) : BitVec 64 :=
  match displaced r x y first second with
  | some k => h.reg (getRegForIndex k)
  | none => g.read x

/-- What holds after `x` was placed in `i` and then `y` in `j`. -/
structure Paired (g : GuestState) (r : RegisterInfo) (h : HostState) (x y : Nat) (i j : Fin 3)
    (r' : RegisterInfo) (h' : HostState) : Prop where
  rep : Represents x0 g r' h'
  frame : Frame h h'
  second : h'.reg (getRegForIndex j) = g.read y
  secondContent : r'.replacementContent j = y
  first : h'.reg (getRegForIndex i) = firstValue g r h x y i j
  held : ¬ (x = y ∧ gpMap x = none) → r'.replacementContent i = x
  kept : displaced r x y i j = none →
    r'.replacementContent i = x ∨ r'.replacementContent i = invalidReg
  left : ∀ k, displaced r x y i j = some k → r'.replacementContent i = r.replacementContent k
  slot : gpMap x = none → h'.cell (.gp x) = h.cell (.gp x)

section Pairs

variable {g : GuestState} {r r₁ r' : RegisterInfo} {h h₁ h₂ h₃ h' : HostState} {e : Bool}
  {x y : Nat} {i j : Fin 3}

theorem firstValue_of_none (hnone : displaced r x y i j = none) :
    firstValue g r h x y i j = g.read x := by
  unfold firstValue
  rw [hnone]

theorem firstValue_of_some {k : Fin 3} (hsome : displaced r x y i j = some k) :
    firstValue g r h x y i j = h.reg (getRegForIndex k) := by
  unfold firstValue
  rw [hsome]

theorem displaced_of_ne (hxy : ¬ (x = y ∧ gpMap x = none)) : displaced r x y i j = none := by
  unfold displaced
  rw [if_neg hxy]

/-- A load leaves the slot of the register alone, and so does a copy. -/
theorem Placed.slot {required : Bool} (hp : Placed r h x required i r' h') :
    h'.cell (.gp x) = h.cell (.gp x) := by
  refine hp.slots x ?_
  by_cases hi : r.replacementContent i = x
  · exact .inr fun hnone => RegisterInfo.find_none hnone i hi
  · exact .inl hi

/-- The second load leaves the first one alone if the registers differ. -/
theorem placed_or_copied_other (hne : i ≠ j) (hcontent : r₁.replacementContent i = x)
    (hxy : x ≠ y ∨ gpMap x ≠ none)
    (hload : gpMap y = none ∧ Placed r₁ h₃ y true j r' h' ∨
      gpMap y ≠ none ∧ Copied r₁ h₃ y j r' h') :
    r'.replacementContent i = x ∧ h'.reg (getRegForIndex i) = h₃.reg (getRegForIndex i) := by
  rcases hload with ⟨hmap, hp⟩ | ⟨-, hc⟩
  · have hother : r₁.replacementContent i ≠ y := by
      rw [hcontent]
      rintro rfl
      rcases hxy with hxy | hxy
      · exact hxy rfl
      · exact hxy hmap
    obtain ⟨hc, -, hreg⟩ := hp.others i hne hother
    exact ⟨hc.trans hcontent, hreg⟩
  · rw [hc.content, Function.update_of_ne hne]
    exact ⟨hcontent, hc.others i hne⟩

/-- The same unmapped register is placed twice: what lay in `displaced` remains. -/
theorem placed_twice (hr : r.WellFormed) (hmap : gpMap x = none) (hne : i ≠ j)
    (hreg₁ : h₁.reg = h.reg) (hreg₃ : h₃.reg = h₂.reg)
    (hp : Placed r h₁ x true i r₁ h₂) (hp' : Placed r₁ h₃ x true j r' h') :
    (displaced r x x i j = none → h'.reg (getRegForIndex i) = h₂.reg (getRegForIndex i) ∧
      r'.replacementContent i = invalidReg) ∧
    ∀ k, displaced r x x i j = some k → h'.reg (getRegForIndex i) = h.reg (getRegForIndex k) ∧
      r'.replacementContent i = r.replacementContent k := by
  obtain ⟨hcontent, hrecency, hreg⟩ := hp'.moved i hne hp.content
  rw [hreg₃] at hreg
  unfold displaced
  rw [if_pos ⟨rfl, hmap⟩]
  -- the second placement exchanges `i` and `j`; what comes back depends on where `x` was before
  by_cases hj : r.replacementContent j = x
  · obtain ⟨hcj, hrj, hregj⟩ := hp.moved j hne.symm hj
    rw [if_pos hj]
    rw [hregj, hrj, hreg₁] at hreg
    by_cases hocc : r.replacementRecency i ≠ 0
    · rw [if_pos hocc] at hreg ⊢
      refine ⟨fun habs => absurd habs nofun, fun k hk => ?_⟩
      obtain rfl := Option.some.inj hk
      rw [if_pos hocc] at hreg
      exact ⟨hreg, hcontent.trans hcj⟩
    · rw [if_neg hocc] at hreg ⊢
      have hempty := (hr.empty i).1 (not_not.1 hocc)
      exact ⟨fun _ => ⟨hreg, hcontent.trans (hcj.trans hempty)⟩, fun k hk => absurd hk nofun⟩
  · obtain ⟨hcj, hrj, hregj⟩ := hp.others j hne.symm hj
    rw [if_neg hj]
    rw [hregj, hrj, hreg₁] at hreg
    by_cases hocc : r.replacementRecency j ≠ 0
    · rw [if_pos hocc] at hreg ⊢
      refine ⟨fun habs => absurd habs nofun, fun k hk => ?_⟩
      obtain rfl := Option.some.inj hk
      exact ⟨hreg, hcontent.trans hcj⟩
    · rw [if_neg hocc] at hreg ⊢
      have hempty := (hr.empty j).1 (not_not.1 hocc)
      exact ⟨fun _ => ⟨hreg, hcontent.trans (hcj.trans hempty)⟩, fun k hk => absurd hk nofun⟩

/-- Two operands are placed. -/
theorem getSrcInto_pair (flags : Flags) (hrep : Represents x0 g r h) (hx : x < 32) (hy : y < 32)
    (hne : i ≠ j) :
    ∃ r₁ h₁ r' h', RunsOn (getSrcInto flags x i) ⟨r, e⟩ h (getRegForIndex i) ⟨r₁, e⟩ h₁ ∧
      RunsOn (getSrcInto flags y j) ⟨r₁, e⟩ h₁ (getRegForIndex j) ⟨r', e⟩ h' ∧
      Paired g r h x y i j r' h' := by
  obtain ⟨h₁, r₁, h₂, hrun, hcount, hload⟩ := getSrcInto_runs (h := h) (e := e) flags hrep.wf hx i
  have hfirst : Represents x0 g r₁ h₂ ∧ Operand g r₁ h₂ (getRegForIndex i) x 0 ∧ Frame h h₂ ∧
      r₁.replacementContent i = x ∧ (gpMap x = none → h₂.cell (.gp x) = h.cell (.gp x)) := by
    rcases hload with ⟨hmap, hp⟩ | ⟨hmap, hc⟩
    · obtain ⟨hrep₁, ho⟩ := hp.operand (hcount.represents hrep) hx hmap
      exact ⟨hrep₁, ho, hcount.frame.trans hp.frame, hp.content,
        fun _ => hp.slot.trans (hcount.slot x)⟩
    · obtain ⟨hrep₁, ho⟩ := hc.operand (hcount.represents hrep) hx hmap
      refine ⟨hrep₁, ho, hcount.frame.trans hc.frame, ?_, fun hnone => absurd hnone hmap⟩
      rw [hc.content, Function.update_self]
  obtain ⟨hrep₁, ⟨-, hvalue⟩, hframe, hcontent, hslot⟩ := hfirst
  obtain ⟨h₃, r', h', hrun', hcount', hload'⟩ :=
    getSrcInto_runs (h := h₂) (e := e) flags hrep₁.wf hy j
  have hsecond : Represents x0 g r' h' ∧ Operand g r' h' (getRegForIndex j) y 0 ∧ Frame h₂ h' ∧
      r'.replacementContent j = y := by
    rcases hload' with ⟨hmap, hp⟩ | ⟨hmap, hc⟩
    · obtain ⟨hrep', ho⟩ := hp.operand (hcount'.represents hrep₁) hy hmap
      exact ⟨hrep', ho, hcount'.frame.trans hp.frame, hp.content⟩
    · obtain ⟨hrep', ho⟩ := hc.operand (hcount'.represents hrep₁) hy hmap
      refine ⟨hrep', ho, hcount'.frame.trans hc.frame, ?_⟩
      rw [hc.content, Function.update_self]
  obtain ⟨hrep', ⟨-, hvalue'⟩, hframe', hcontent'⟩ := hsecond
  -- the second load moves `x` away only if it places the same unmapped register
  have hleft : (¬ (x = y ∧ gpMap x = none) → r'.replacementContent i = x) ∧
      (displaced r x y i j = none → h'.reg (getRegForIndex i) = g.read x ∧
      (r'.replacementContent i = x ∨ r'.replacementContent i = invalidReg)) ∧
      ∀ k, displaced r x y i j = some k → h'.reg (getRegForIndex i) = h.reg (getRegForIndex k) ∧
        r'.replacementContent i = r.replacementContent k := by
    by_cases hsame : x = y ∧ gpMap x = none
    · obtain ⟨rfl, hmap⟩ := hsame
      have hp : Placed r h₁ x true i r₁ h₂ :=
        (hload.resolve_right fun hc => hc.1 hmap).2
      have hp' : Placed r₁ h₃ x true j r' h' :=
        (hload'.resolve_right fun hc => hc.1 hmap).2
      obtain ⟨hstay, hmoved⟩ :=
        placed_twice hrep.wf hmap hne hcount.reg hcount'.reg hp hp'
      exact ⟨fun hne => absurd ⟨rfl, hmap⟩ hne,
        fun hnone => ⟨(hstay hnone).1.trans hvalue, .inr (hstay hnone).2⟩, hmoved⟩
    · have hxy : x ≠ y ∨ gpMap x ≠ none := not_and_or.1 hsame
      obtain ⟨hc, hreg⟩ := placed_or_copied_other hne hcontent hxy hload'
      rw [hcount'.reg, hvalue] at hreg
      rw [displaced_of_ne hsame]
      exact ⟨fun _ => hc, fun _ => ⟨hreg, .inl hc⟩, fun k hk => absurd hk nofun⟩
  obtain ⟨hheld, hleft⟩ := hleft
  refine ⟨r₁, h₂, r', h', hrun, hrun', hrep', hframe.trans hframe', hvalue', hcontent', ?_,
    hheld, fun hnone => (hleft.1 hnone).2, fun k hk => (hleft.2 k hk).2, fun hmap => ?_⟩
  · cases hd : displaced r x y i j with
    | none => rw [firstValue_of_none hd, (hleft.1 hd).1]
    | some k => rw [firstValue_of_some hd, (hleft.2 k hd).1]
  · rw [← hslot hmap, ← hcount'.slot x]
    have hother : r₁.replacementContent j ≠ x ∨ y = x := by
      by_cases hyx : y = x
      · exact .inr hyx
      · refine .inl fun hjx => hne (hrep₁.wf.distinct i j (hcontent.trans hjx.symm) ?_ ?_)
        · rwa [hcontent]
        · rw [hcontent]
          unfold invalidReg
          omega
    rcases hload' with ⟨-, hp⟩ | ⟨hmapy, hc⟩
    · rcases hother with hother | rfl
      · exact hp.slots x (.inl hother)
      · exact hp.slot
    · rcases hother with hother | rfl
      · exact hc.slots x (.inr hother)
      · exact absurd hmap hmapy

end Pairs

/-! ## Making room for the result -/

/-- What holds after `DX` and `AX` were emptied and the destination `d` was allocated: it lies
in `AX`, in `CX` or where it is mapped. -/
structure Cleared (g : GuestState) (d : Nat) (r : RegisterInfo) (h : HostState) (R : FeReg)
    (r' : RegisterInfo) (h' : HostState) : Prop where
  rep : Represents d g r' h'
  frame : Frame h h'
  loc : Located r' R d
  dx : r'.replacementContent 1 = invalidReg
  ax : r'.replacementContent 0 = invalidReg ∨ r'.replacementContent 0 = d
  axValue : h'.reg .ax = h.reg .ax
  cxValue : h'.reg .cx = if d = x0 ∧ r.replacementContent 2 = x0 then 0#64 else h.reg .cx
  slot : ∀ x, x < 32 → r.replacementContent 1 ≠ x →
    h'.cell (.gp x) = if r.replacementContent 0 = x ∧ x ≠ x0 then h.reg .ax else h.cell (.gp x)

section Clear

variable {g : GuestState} {r : RegisterInfo} {h : HostState} {e : Bool} {d : Nat}

/-- Both replacements are emptied; what `AX` held is in its slot. -/
theorem clear_slot {x : Nat} (hx : x < 32) (hdx : r.replacementContent 1 ≠ x) :
    (writtenBack (r.note 1 invalidReg 0) (writtenBack r h 1) 0).cell (.gp x) =
      if r.replacementContent 0 = x ∧ x ≠ x0 then h.reg .ax else h.cell (.gp x) := by
  have hfirst : (writtenBack r h 1).cell (.gp x) = h.cell (.gp x) := writtenBack_slot 1 (.inr hdx)
  have hcontent : (r.note 1 invalidReg 0).replacementContent 0 = r.replacementContent 0 :=
    RegisterInfo.note_content_of_ne (by decide) _ _
  by_cases hax : r.replacementContent 0 = x ∧ x ≠ x0
  · obtain ⟨hax, hx0⟩ := hax
    have hneeds : needsWriteBack (r.note 1 invalidReg 0) 0 := by
      unfold needsWriteBack
      rw [hcontent, hax]
      exact ⟨hx0, by unfold invalidReg; omega⟩
    have hback := writtenBack_content (h := writtenBack r h 1) hneeds
    rw [hcontent, hax, writtenBack_reg] at hback
    rw [if_pos ⟨hax, hx0⟩]
    exact hback
  · rw [if_neg hax, ← hfirst]
    refine writtenBack_slot 0 ?_
    rw [hcontent]
    rcases not_and_or.1 hax with hax | hax
    · exact .inr hax
    · exact .inl (not_not.1 hax)

/-- With `AX` and `DX` empty, the destination is allocated in `CX` if it lies there, else in
`AX`. -/
theorem chosen_clear (hr : r.WellFormed) (hdx : r.replacementContent 1 = invalidReg)
    (hax : r.replacementContent 0 = invalidReg) (hd : d < 32) :
    r.replacementContent 2 = d ∧ chosen r d = 2 ∧ r.find d ≠ none ∨
      r.replacementContent 2 ≠ d ∧ chosen r d = 0 ∧ r.find d = none := by
  have hvalid : invalidReg ≠ d := by
    unfold invalidReg
    omega
  have holdest : r.oldest = 0 := by
    unfold RegisterInfo.oldest
    simp [(hr.empty 0).2 hax, (hr.empty 1).2 hdx]
  have hfind : r.find d = if r.replacementContent 2 = d then some 2 else none := by
    unfold RegisterInfo.find
    rw [hax, hdx, if_neg hvalid, if_neg hvalid]
  unfold chosen
  rw [hfind, holdest]
  by_cases hcx : r.replacementContent 2 = d
  · rw [if_pos hcx]
    exact .inl ⟨hcx, rfl, Option.some_ne_none _⟩
  · rw [if_neg hcx]
    exact .inr ⟨hcx, rfl, rfl⟩

/-- `getRd` with `AX` and `DX` empty. -/
theorem getRd_clear (flags : Flags) (hrep : Represents x0 g r h)
    (hdx : r.replacementContent 1 = invalidReg) (hax : r.replacementContent 0 = invalidReg)
    {instr : RiscInstr} (hd : instr.regDest < 32) :
    ∃ R r' h', RunsOn (getRd flags instr) ⟨r, e⟩ h R ⟨r', e⟩ h' ∧
      Represents instr.regDest g r' h' ∧ Frame h h' ∧ Located r' R instr.regDest ∧
      r'.replacementContent 1 = invalidReg ∧
      (r'.replacementContent 0 = invalidReg ∨ r'.replacementContent 0 = instr.regDest) ∧
      h'.reg .ax = h.reg .ax ∧
      h'.reg .cx = (if instr.regDest = x0 ∧ r.replacementContent 2 = x0 then 0#64
        else h.reg .cx) ∧
      ∀ x, x < 32 → h'.cell (.gp x) = h.cell (.gp x) := by
  obtain ⟨h₁, hrun₁, hcount⟩ := recordGpProfiler_runs (h := h) flags instr.regDest ⟨r, e⟩
  cases hmap : gpMap instr.regDest with
  | some mapped =>
      -- `x0` is not mapped
      have hx0 : instr.regDest ≠ x0 := fun hx0 => by
        rw [hx0, gpMap_x0] at hmap
        exact absurd hmap nofun
      refine ⟨mapped, r, h₁, .bind hrun₁ ?_, (hcount.fetched hrep (.inl rfl)).rep, hcount.frame,
        .inl hmap, hdx, .inl hax, by rw [hcount.reg], ?_, fun x _ => hcount.slot x⟩
      · rw [hmap]
        exact Runs.ret _ _ _
      · rw [if_neg fun h => hx0 h.1, hcount.reg]
  | none =>
      obtain ⟨r', h', hrun, hl, hslots, hregs⟩ :=
        loadIntoReplacement_runs (h := h₁) (e := e) hrep.wf hmap hd false
      have hrep' : Represents instr.regDest g r' h' :=
        (hl.fetched hrep hcount hmap hd (chosen_spec r _) (.inr rfl)).rep
      refine ⟨_, r', h', .bind hrun₁ ?_, hrep', hcount.frame.trans hl.frame,
        .inr ⟨hmap, _, rfl, by rw [hl.content, Function.update_self]⟩, ?_⟩
      · rw [hmap]
        exact hrun
      · rcases chosen_clear hrep.wf hdx hax hd with ⟨hcx, hchosen, hfind⟩ | ⟨hcx, hchosen, hfind⟩
        · -- `CX` holds the register already
          rw [hchosen] at hl
          refine ⟨?_, .inl ?_, ?_, ?_, fun x hx => ?_⟩
          · rw [hl.content, Function.update_of_ne (by decide), hdx]
          · rw [hl.content, Function.update_of_ne (by decide), hax]
          · exact (hl.others 0 (by decide)).trans (congrFun hcount.reg _)
          · have hpresent := hl.present hcx
            rw [hcount.reg] at hpresent
            rw [hcx]
            simp only [and_self]
            exact hpresent
          · rw [hslots x (.inr hfind), hcount.slot]
        · -- else `AX` is taken: it is empty, so nothing is written back
          rw [hchosen] at hl
          refine ⟨?_, .inr ?_, ?_, ?_, fun x hx => ?_⟩
          · rw [hl.content, Function.update_of_ne (by decide), hdx]
          · rw [hl.content, Function.update_self]
          · rw [hregs rfl hfind, hcount.reg]
          · rw [if_neg fun h => hcx (h.2.trans h.1.symm), hregs rfl hfind, hcount.reg]
          · refine (hl.slots x ?_).trans (hcount.slot x)
            rw [hax]
            unfold invalidReg
            omega

/-- `DX` and `AX` are emptied and the destination is allocated. -/
theorem clear_runs (flags : Flags) (hrep : Represents x0 g r h) {instr : RiscInstr}
    (hd : instr.regDest < 32) :
    ∃ R r₁ h₁ r₂ h₂ r' h', RunsOn (invalidateReplacement 1) ⟨r, e⟩ h () ⟨r₁, e⟩ h₁ ∧
      RunsOn (invalidateReplacement 0) ⟨r₁, e⟩ h₁ () ⟨r₂, e⟩ h₂ ∧
      RunsOn (getRd flags instr) ⟨r₂, e⟩ h₂ R ⟨r', e⟩ h' ∧ Cleared g instr.regDest r h R r' h' := by
  have hrep₁ := hrep.invalidate 1
  have hrep₂ := hrep₁.invalidate 0
  have hframe₂ : Frame h (writtenBack (r.note 1 invalidReg 0) (writtenBack r h 1) 0) :=
    (frame_writtenBack hrep.wf 1).trans (frame_writtenBack hrep₁.wf 0)
  have hreg₂ : (writtenBack (r.note 1 invalidReg 0) (writtenBack r h 1) 0).reg = h.reg :=
    (writtenBack_reg 0).trans (writtenBack_reg 1)
  obtain ⟨R, r', h', hrun, hrep', hframe, hloc, hdx, hax, haxValue, hcxValue, hslots⟩ :=
    getRd_clear (e := e) flags hrep₂ rfl rfl hd
  refine ⟨R, _, _, _, _, r', h', invalidateReplacement_runs r h e 1,
    invalidateReplacement_runs _ _ e 0, hrun, hrep', hframe₂.trans hframe, hloc, hdx, hax, ?_, ?_,
    fun x hx hne => ?_⟩
  · rw [haxValue, hreg₂]
  · rw [hcxValue, hreg₂]
    rfl
  · rw [hslots x hx, clear_slot hx hne]

end Clear

end RiaJit.Translate
