import RiaJit.Gen.RegisterInfo

/-!
# What the allocator emits

The helpers of `util.h` emit moves between a replacement and the register file, moves
between replacements, and zeroing. A property that these instructions have is one of
all the code the helpers emit. Which slots of the register file are touched depends
on the contents of the replacements.
-/

set_option autoImplicit false

namespace RiaJit.Translate

open EmitLogic X86

/-- `p` holds of the instructions that the helpers emit for registers with `ok`. -/
structure AllocatorCode (ok : Nat → Prop) (p : FeInstr → Prop) : Prop where
  store : ∀ reg src, ok reg → p (.mov64mrCell (.gp reg) src)
  load : ∀ reg dst, ok reg → p (.mov64rmCell dst (.gp reg))
  usage : ∀ reg, ok reg → p (.inc64mCell (.gpUsage reg))
  move : ∀ size dst src, p (.movrr size dst src)
  exchange : ∀ a b, p (.xchg64rr a b)
  zero : ∀ a, p (.alurr .xor .s32 a a)

/-- The replacements hold registers with `ok`, or nothing. -/
def ContentOk (ok : Nat → Prop) (s : GenState) : Prop :=
  ∀ i, ok (s.rInfo.replacementContent i) ∨
    s.rInfo.replacementContent i = invalidReg ∧ s.rInfo.replacementRecency i = 0

/-- A replacement in which a register is found holds it. -/
theorem RegisterInfo.find_some {r : RegisterInfo} {reg : Nat} {i : Fin 3}
    (h : r.find reg = some i) : r.replacementContent i = reg := by
  unfold RegisterInfo.find at h
  split at h
  · obtain rfl := Option.some.inj h
    assumption
  · split at h
    · obtain rfl := Option.some.inj h
      assumption
    · split at h
      · obtain rfl := Option.some.inj h
        assumption
      · exact absurd h nofun

section

variable {ok : Nat → Prop} {p : FeInstr → Prop} {P : GenState → Prop}

/-! ## Primitives -/

/-- A property that does not depend on `err`. -/
def IgnoresErr (P : GenState → Prop) : Prop := ∀ s, P s → P { s with err := true }

/-- A single instruction satisfies the property, if the error flag does not matter. -/
theorem emits_feEnc64 (hP : IgnoresErr P) {i : FeInstr} (hi : p i) :
    Emits P p (feEnc64 i) fun _ => P := by
  refine Emits.ite (fun _ => ?_) fun _ => ?_
  · exact Emits.emit hi fun _ h => h
  · exact Emits.modify _ hP

/-- A step that is left out emits nothing. -/
theorem emits_onlyIf {c : Prop} [Decidable c] {g : Gen Unit}
    (hg : c → Emits P p g fun _ => P) : Emits P p (onlyIf c g) fun _ => P :=
  Emits.ite hg fun _ => Emits.ret () fun _ h => h

theorem emits_getRInfo : Emits P p getRInfo fun r s => P s ∧ s.rInfo = r :=
  fun _ h => ⟨fun _ hi => absurd hi List.not_mem_nil, h, rfl⟩

theorem emits_modifyRInfo {Q : GenState → Prop} (f : RegisterInfo → RegisterInfo)
    (hQ : ∀ s, P s → Q { s with rInfo := f s.rInfo }) :
    Emits P p (modifyRInfo f) fun _ => Q :=
  Emits.modify _ hQ

theorem ContentOk.ignoresErr : IgnoresErr (ContentOk ok) := fun _ h => h

/-- A replacement may be labelled with an allowed register, or be emptied. -/
theorem ContentOk.note {s : GenState} (h : ContentOk ok s) {index : Fin 3} {content recency : Nat}
    (hok : ok content ∨ content = invalidReg ∧ recency = 0) :
    ContentOk ok { s with rInfo := s.rInfo.note index content recency } := by
  intro i
  show ok (Function.update s.rInfo.replacementContent index content i) ∨
    Function.update s.rInfo.replacementContent index content i = invalidReg ∧
      Function.update s.rInfo.replacementRecency index recency i = 0
  by_cases hi : i = index
  · rw [hi, Function.update_self, Function.update_self]
    exact hok
  · rw [Function.update_of_ne hi, Function.update_of_ne hi]
    exact h i

/-- Counting keeps the labels. -/
theorem ContentOk.tick {s : GenState} (h : ContentOk ok s) :
    ContentOk ok { s with rInfo := s.rInfo.tick } := h

/-! ## Helpers -/

variable (hcode : AllocatorCode ok p)

include hcode

theorem emits_zero (reg : FeReg) : Emits (ContentOk ok) p (zero reg) fun _ => ContentOk ok :=
  emits_feEnc64 ContentOk.ignoresErr (hcode.zero reg)

theorem emits_recordGpProfiler (flags : Flags) {reg : Nat} (hreg : ok reg) :
    Emits (ContentOk ok) p (recordGpProfiler flags reg) fun _ => ContentOk ok :=
  emits_onlyIf fun _ => emits_feEnc64 ContentOk.ignoresErr (hcode.usage reg hreg)

/-- The write-back of a replacement that holds something. -/
theorem emits_writeBack (r : RegisterInfo) (index : Fin 3) {c : Prop} [Decidable c]
    (hheld : c → r.replacementContent index ≠ invalidReg ∨ r.replacementRecency index ≠ 0) :
    Emits (fun s => ContentOk ok s ∧ s.rInfo = r) p
      (onlyIf c (writeBack (r.replacementContent index) (getRegForIndex index)))
      fun _ s => ContentOk ok s ∧ s.rInfo = r := by
  refine emits_onlyIf fun hc s h => ?_
  obtain ⟨hs, rfl⟩ := h
  have hreg : ok (s.rInfo.replacementContent index) := by
    rcases hs index with hok | ⟨hinvalid, hzero⟩
    · exact hok
    · rcases hheld hc with hne | hne
      · exact absurd hinvalid hne
      · exact absurd hzero hne
  have hstable : IgnoresErr fun t => ContentOk ok t ∧ t.rInfo = s.rInfo := fun _ h => h
  exact emits_feEnc64 hstable (hcode.store _ _ hreg) s ⟨hs, rfl⟩

/-- Only an allowed register is stored to its slot. -/
theorem emits_invalidateReplacement (index : Fin 3) :
    Emits (ContentOk ok) p (invalidateReplacement index) fun _ => ContentOk ok := by
  refine Emits.bind emits_getRInfo fun r => ?_
  refine Emits.bind (emits_writeBack hcode r index fun hc => .inl hc.2) fun _ => ?_
  exact emits_modifyRInfo _ fun s h => h.1.note (.inr ⟨rfl, rfl⟩)

theorem emits_invalidateAllReplacements :
    Emits (ContentOk ok) p invalidateAllReplacements fun _ => ContentOk ok :=
  .bind (emits_invalidateReplacement hcode 0) fun _ =>
    .bind (emits_invalidateReplacement hcode 1) fun _ => emits_invalidateReplacement hcode 2

/-- Only an allowed register is loaded from its slot. -/
theorem emits_loadValue {reg : Nat} (hreg : ok reg) (into : FeReg) :
    Emits (ContentOk ok) p (loadValue reg into) fun _ => ContentOk ok :=
  .ite (fun _ => emits_feEnc64 ContentOk.ignoresErr (hcode.load _ _ hreg))
    fun _ => emits_zero hcode into

/-- A load stores what was there and loads what is requested, both of them allowed. -/
theorem emits_loadIntoReplacement {reg : Nat} (hreg : ok reg) (requireValue : Bool) :
    Emits (ContentOk ok) p (loadIntoReplacement reg requireValue) fun _ => ContentOk ok := by
  refine Emits.bind (emits_modifyRInfo _ fun s h => ContentOk.tick h) fun _ => ?_
  refine Emits.bind emits_getRInfo fun r => ?_
  cases r.find reg with
  | some i =>
      refine Emits.bind (emits_modifyRInfo _ fun s h => h.1.note (.inl hreg)) fun _ => ?_
      exact .bind (emits_onlyIf fun _ => emits_zero hcode _) fun _ => .ret _ fun _ h => h
  | none =>
      refine Emits.bind (emits_getRInfo.conseq (fun _ h => h.1) fun _ _ h => h) fun r => ?_
      refine Emits.bind (emits_writeBack hcode r r.oldest fun hc => .inl hc.2) fun _ => ?_
      refine Emits.bind (emits_modifyRInfo _ fun s h => h.1.note (.inl hreg)) fun _ => ?_
      exact .bind (emits_onlyIf fun _ => emits_loadValue hcode hreg _) fun _ => .ret _ fun _ h => h

/-- Reading an allowed register emits allowed code. -/
theorem emits_getSrc (flags : Flags) {reg : Nat} (hreg : ok reg) :
    Emits (ContentOk ok) p (getSrc flags reg) fun _ => ContentOk ok := by
  refine Emits.bind (emits_recordGpProfiler hcode flags hreg) fun _ => ?_
  cases gpMap reg with
  | none => exact emits_loadIntoReplacement hcode hreg true
  | some mapped => exact .ret _ fun _ h => h

/-- So does taking a replacement for an allowed destination. -/
theorem emits_getRd (flags : Flags) {instr : RiscInstr} (hreg : ok instr.regDest) :
    Emits (ContentOk ok) p (getRd flags instr) fun _ => ContentOk ok := by
  refine Emits.bind (emits_recordGpProfiler hcode flags hreg) fun _ => ?_
  cases gpMap instr.regDest with
  | none => exact emits_loadIntoReplacement hcode hreg false
  | some mapped => exact .ret _ fun _ h => h

end

end RiaJit.Translate
