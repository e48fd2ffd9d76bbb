import RiaJit.Gen.EmittedCode
import RiaJit.Guest.Rv64i
import Mathlib.Logic.Equiv.Basic

/-!
# The register cache

The three replacement registers are a cache of the register file for the guest
registers that have no host register of their own. `regValue` is the value that a
guest register has, wherever it lies. Every helper of `util.h` keeps these values,
except that of a destination, and leaves the replacements it was not asked to
use alone as long as they are young.
-/

set_option autoImplicit false

namespace RiaJit.Translate

open EmitLogic X86

/-! ## The static mapping -/

/-- The guest register that a host register is mapped to. -/
def gpUnmap : FeReg → Option Nat
  | .bx => some 15
  | .bp => some 14
  | .si => some 13
  | .di => some 10
  | .r8 => some 8
  | .r9 => some 2
  | .r10 => some 12
  | .r11 => some 11
  | .r12 => some 9
  | .r13 => some 1
  | .r14 => some 17
  | .r15 => some 18
  | .ax | .cx | .dx | .sp => none

/-- Every mapped register is known by its host register. -/
theorem gpUnmap_gpMap {x : Nat} {mapped : FeReg} (h : gpMap x = some mapped) :
    gpUnmap mapped = some x := by
  unfold gpMap at h
  split at h
  all_goals cases h
  all_goals rfl

/-- No host register stands for two registers of the guest. -/
theorem gpMap_injective {x y : Nat} {mapped : FeReg} (hx : gpMap x = some mapped)
    (hy : gpMap y = some mapped) : x = y := by
  have h := (gpUnmap_gpMap hx).symm.trans (gpUnmap_gpMap hy)
  exact Option.some.inj h

/-- The replacements are not among the mapped host registers. -/
theorem gpMap_ne_replacement {x : Nat} {mapped : FeReg} (h : gpMap x = some mapped)
    (i : Fin 3) : mapped ≠ getRegForIndex i := by
  rintro rfl
  have hback := gpUnmap_gpMap h
  match i with
  | 0 => exact absurd hback nofun
  | 1 => exact absurd hback nofun
  | 2 => exact absurd hback nofun

/-- The stack pointer of the host stands for no register of the guest. -/
theorem gpMap_ne_sp {x : Nat} {mapped : FeReg} (h : gpMap x = some mapped) : mapped ≠ .sp := by
  rintro rfl
  exact absurd (gpUnmap_gpMap h) nofun

/-- The replacements are three different host registers. -/
theorem getRegForIndex_injective {i j : Fin 3} (h : getRegForIndex i = getRegForIndex j) :
    i = j := by
  match i, j with
  | 0, 0 | 1, 1 | 2, 2 => rfl
  | 0, 1 | 0, 2 | 1, 0 | 1, 2 | 2, 0 | 2, 1 => exact absurd h nofun

theorem getRegForIndex_ne_sp (i : Fin 3) : getRegForIndex i ≠ .sp := by
  match i with
  | 0 | 1 | 2 => exact nofun

/-- The zero register is not mapped. -/
theorem gpMap_x0 : gpMap x0 = none := rfl

/-! ## Well-formed contents -/

namespace RegisterInfo

/-- What holds of `r_info` between the calls of the helpers. A statically mapped
register may be the content of several replacements, which are then copies. -/
structure WellFormed (r : RegisterInfo) : Prop where
  content_lt : ∀ i, r.replacementContent i < 32 ∨ r.replacementContent i = invalidReg
  distinct : ∀ i j, r.replacementContent i = r.replacementContent j →
    gpMap (r.replacementContent i) = none → r.replacementContent i ≠ invalidReg → i = j
  empty : ∀ i, r.replacementRecency i = 0 ↔ r.replacementContent i = invalidReg
  fresh : ∀ i j, r.replacementRecency i = r.replacementRecency j →
    r.replacementRecency i ≠ 0 → i = j
  bound : ∀ i, r.replacementRecency i ≤ r.currentRecency

variable {r : RegisterInfo}

/-- A register that is not found is in no replacement. -/
theorem find_none {reg : Nat} (h : r.find reg = none) (i : Fin 3) :
    r.replacementContent i ≠ reg := by
  unfold find at h
  split at h
  · exact absurd h nofun
  · rename_i h0
    split at h
    · exact absurd h nofun
    · rename_i h1
      split at h
      · exact absurd h nofun
      · rename_i h2
        match i with
        | 0 => exact h0
        | 1 => exact h1
        | 2 => exact h2

theorem find_eq_none {reg : Nat} (h : ∀ i, r.replacementContent i ≠ reg) : r.find reg = none := by
  cases hfind : r.find reg with
  | none => rfl
  | some i => exact absurd (find_some hfind) (h i)

/-- A register that one replacement holds is found there. -/
theorem find_of_unique {i : Fin 3} {reg : Nat} (h : r.replacementContent i = reg)
    (hunique : ∀ j, r.replacementContent j = reg → j = i) : r.find reg = some i := by
  cases hfind : r.find reg with
  | none => exact absurd h (find_none hfind i)
  | some j => exact congrArg some (hunique j (find_some hfind))

/-- An unmapped register is found where it is. -/
theorem WellFormed.find (hr : r.WellFormed) {i : Fin 3} {reg : Nat}
    (h : r.replacementContent i = reg) (hmap : gpMap reg = none) (hreg : reg ≠ invalidReg) :
    r.find reg = some i := by
  refine find_of_unique h fun j hj => hr.distinct j i (hj.trans h.symm) ?_ ?_
  · rwa [hj]
  · rwa [hj]

/-- The replacement that is taken next was used no later than the others. -/
theorem oldest_le (r : RegisterInfo) (i : Fin 3) :
    r.replacementRecency r.oldest ≤ r.replacementRecency i := by
  unfold oldest
  dsimp only
  split
  · split
    · match i with
      | 0 | 1 | 2 => omega
    · match i with
      | 0 | 1 | 2 => omega
  · split
    · match i with
      | 0 | 1 | 2 => omega
    · match i with
      | 0 | 1 | 2 => omega

@[simp] theorem note_content_self (i : Fin 3) (content recency : Nat) :
    (r.note i content recency).replacementContent i = content := by
  unfold note
  exact Function.update_self ..

@[simp] theorem note_recency_self (i : Fin 3) (content recency : Nat) :
    (r.note i content recency).replacementRecency i = recency := by
  unfold note
  exact Function.update_self ..

@[simp] theorem note_content_of_ne {i j : Fin 3} (h : j ≠ i) (content recency : Nat) :
    (r.note i content recency).replacementContent j = r.replacementContent j := by
  unfold note
  exact Function.update_of_ne h ..

@[simp] theorem note_recency_of_ne {i j : Fin 3} (h : j ≠ i) (content recency : Nat) :
    (r.note i content recency).replacementRecency j = r.replacementRecency j := by
  unfold note
  exact Function.update_of_ne h ..

@[simp] theorem note_current (i : Fin 3) (content recency : Nat) :
    (r.note i content recency).currentRecency = r.currentRecency := rfl

@[simp] theorem tick_content : r.tick.replacementContent = r.replacementContent := rfl

@[simp] theorem tick_recency : r.tick.replacementRecency = r.replacementRecency := rfl

@[simp] theorem tick_current : r.tick.currentRecency = r.currentRecency + 1 := rfl

/-- A replacement is emptied. -/
theorem WellFormed.clear (hr : r.WellFormed) (i : Fin 3) :
    (r.note i invalidReg 0).WellFormed := by
  -- an emptied replacement holds no register and has never been used
  constructor
  · intro j
    by_cases hj : j = i
    · subst hj
      exact .inr (by simp)
    · simpa [hj] using hr.content_lt j
  · intro j k heq hmap hvalid
    by_cases hj : j = i
    · subst hj
      exact absurd (by simp) hvalid
    · by_cases hk : k = i
      · subst hk
        simp only [note_content_self] at heq
        exact absurd heq hvalid
      · simp only [note_content_of_ne hj, note_content_of_ne hk] at heq hmap hvalid
        exact hr.distinct j k heq hmap hvalid
  · intro j
    by_cases hj : j = i
    · subst hj
      simp
    · simpa [hj] using hr.empty j
  · intro j k heq hold
    by_cases hj : j = i
    · subst hj
      exact absurd (by simp) hold
    · by_cases hk : k = i
      · subst hk
        simp only [note_recency_self] at heq
        exact absurd heq hold
      · simp only [note_recency_of_ne hj, note_recency_of_ne hk] at heq hold
        exact hr.fresh j k heq hold
  · intro j
    by_cases hj : j = i
    · subst hj
      simp
    · simpa [hj] using hr.bound j

/-- A replacement is given a register that no other one holds, unless it is mapped. -/
theorem WellFormed.load (hr : r.WellFormed) (i : Fin 3) {reg : Nat} (hreg : reg < 32)
    (hnew : gpMap reg = none → ∀ j, j ≠ i → r.replacementContent j ≠ reg) :
    (r.tick.note i reg r.tick.currentRecency).WellFormed := by
  -- the recency that is noted is above all others
  constructor
  · intro j
    by_cases hj : j = i
    · subst hj
      exact .inl (by simpa using hreg)
    · simpa [hj] using hr.content_lt j
  · intro j k heq hmap hvalid
    by_cases hj : j = i
    · by_cases hk : k = i
      · rw [hj, hk]
      · subst hj
        simp only [note_content_self, note_content_of_ne hk, tick_content] at heq hmap
        exact absurd heq.symm (hnew hmap k hk)
    · by_cases hk : k = i
      · subst hk
        simp only [note_content_self, note_content_of_ne hj, tick_content] at heq hmap
        exact absurd heq (hnew (by rwa [← heq]) j hj)
      · simp only [note_content_of_ne hj, note_content_of_ne hk, tick_content] at heq hmap hvalid
        exact hr.distinct j k heq hmap hvalid
  · intro j
    by_cases hj : j = i
    · subst hj
      rw [note_recency_self, note_content_self]
      show r.currentRecency + 1 = 0 ↔ reg = 33
      omega
    · simpa [hj] using hr.empty j
  · intro j k heq hold
    by_cases hj : j = i
    · by_cases hk : k = i
      · rw [hj, hk]
      · subst hj
        simp only [note_recency_self, note_recency_of_ne hk, tick_recency, tick_current] at heq
        exact absurd (hr.bound k) (by omega)
    · by_cases hk : k = i
      · subst hk
        simp only [note_recency_self, note_recency_of_ne hj, tick_recency, tick_current] at heq
        exact absurd (hr.bound j) (by omega)
      · simp only [note_recency_of_ne hj, note_recency_of_ne hk, tick_recency] at heq hold
        exact hr.fresh j k heq hold
  · intro j
    by_cases hj : j = i
    · subst hj
      simp
    · have hbound := hr.bound j
      simp only [note_recency_of_ne hj, tick_recency, note_current, tick_current]
      omega

/-- `r_info` after two replacements have exchanged what they hold; the second one is
noted as young. -/
def exchanged (r : RegisterInfo) (i j : Fin 3) : RegisterInfo :=
  (r.tick.note i (r.replacementContent j) (r.replacementRecency j)).note j
    (r.replacementContent i) r.tick.currentRecency

/-- An exchange moves the contents with the values. -/
theorem exchanged_content (i j k : Fin 3) :
    (r.exchanged i j).replacementContent k = r.replacementContent (Equiv.swap i j k) := by
  unfold exchanged
  by_cases hkj : k = j
  · rw [hkj, note_content_self, Equiv.swap_apply_right]
  · rw [note_content_of_ne hkj]
    by_cases hki : k = i
    · rw [hki, note_content_self, Equiv.swap_apply_left]
    · rw [note_content_of_ne hki, Equiv.swap_apply_of_ne_of_ne hki hkj, tick_content]

/-- An exchange moves the recencies too, and the second register counts as used just now. -/
theorem exchanged_recency (i j k : Fin 3) :
    (r.exchanged i j).replacementRecency k =
      if k = j then r.currentRecency + 1 else r.replacementRecency (Equiv.swap i j k) := by
  unfold exchanged
  by_cases hkj : k = j
  · rw [hkj, note_recency_self, if_pos rfl, tick_current]
  · rw [note_recency_of_ne hkj, if_neg hkj]
    by_cases hki : k = i
    · rw [hki, note_recency_self, Equiv.swap_apply_left]
    · rw [note_recency_of_ne hki, Equiv.swap_apply_of_ne_of_ne hki hkj, tick_recency]

theorem exchanged_current (i j : Fin 3) :
    (r.exchanged i j).currentRecency = r.currentRecency + 1 := rfl

/-- An exchange keeps the bookkeeping in order, if the first register holds something. -/
theorem WellFormed.exchange (hr : r.WellFormed) {i j : Fin 3}
    (hvalid : r.replacementContent i ≠ invalidReg) : (r.exchanged i j).WellFormed := by
  constructor
  · intro k
    rw [exchanged_content]
    exact hr.content_lt _
  · intro k l heq hmap hinvalid
    rw [exchanged_content, exchanged_content] at heq
    rw [exchanged_content] at hmap hinvalid
    exact (Equiv.swap i j).injective (hr.distinct _ _ heq hmap hinvalid)
  · intro k
    rw [exchanged_content, exchanged_recency]
    split
    · rename_i hk
      rw [hk, Equiv.swap_apply_right]
      exact ⟨fun h => absurd h (Nat.succ_ne_zero _), fun h => absurd h hvalid⟩
    · exact hr.empty _
  · -- the recency that is noted is above all others
    intro k l heq hold
    rw [exchanged_recency, exchanged_recency] at heq
    rw [exchanged_recency] at hold
    have hk := hr.bound (Equiv.swap i j k)
    have hl := hr.bound (Equiv.swap i j l)
    split at heq
    · rename_i hkj
      split at heq
      · rename_i hlj
        rw [hkj, hlj]
      · omega
    · rename_i hkj
      rw [if_neg hkj] at hold
      split at heq
      · omega
      · exact (Equiv.swap i j).injective (hr.fresh _ _ heq hold)
  · intro k
    rw [exchanged_recency, exchanged_current]
    have hk := hr.bound (Equiv.swap i j k)
    split
    · exact Nat.le_refl _
    · omega

end RegisterInfo

/-! ## Values -/

/-- The value of a guest register: in its host register, in the replacement that holds
it, or in its slot of the register file. -/
def regValue (r : RegisterInfo) (h : HostState) (x : Nat) : BitVec 64 :=
  match gpMap x with
  | some mapped => h.reg mapped
  | none =>
      match r.find x with
      | some i => h.reg (getRegForIndex i)
      | none => h.cell (.gp x)

/-- The slots that the helpers write to: the register file and the profiler's counts. -/
def isRegFile : Cell → Prop
  | .gp x => x < 32
  | .gpUsage _ => True
  | _ => False

/-- What the helpers leave alone: guest memory, the stack, the host registers that are
not replacements, and the translator's other variables. -/
structure Frame (h h' : HostState) : Prop where
  mem : h'.mem = h.mem
  stack : h'.stack = h.stack
  reg : ∀ R, (∀ i, R ≠ getRegForIndex i) → h'.reg R = h.reg R
  cell : ∀ c, ¬ isRegFile c → h'.cell c = h.cell c

section Values

variable {r r' : RegisterInfo} {h h' h'' : HostState}

/-- A mapped register has the value of its host register. -/
theorem regValue_mapped {x : Nat} {mapped : FeReg} (hmap : gpMap x = some mapped) :
    regValue r h x = h.reg mapped := by
  unfold regValue
  rw [hmap]

/-- A register in a replacement has the value of that. -/
theorem regValue_held {x : Nat} {i : Fin 3} (hmap : gpMap x = none) (hfind : r.find x = some i) :
    regValue r h x = h.reg (getRegForIndex i) := by
  unfold regValue
  rw [hmap, hfind]

/-- Any other register has the value of its slot. -/
theorem regValue_slot {x : Nat} (hmap : gpMap x = none) (hfind : r.find x = none) :
    regValue r h x = h.cell (.gp x) := by
  unfold regValue
  rw [hmap, hfind]

theorem Frame.refl (h : HostState) : Frame h h := ⟨rfl, rfl, fun _ _ => rfl, fun _ _ => rfl⟩

/-- What two pieces of code leave alone, both together leave alone. -/
theorem Frame.trans (h₁ : Frame h h') (h₂ : Frame h' h'') : Frame h h'' :=
  ⟨h₂.mem.trans h₁.mem, h₂.stack.trans h₁.stack, fun R hR => (h₂.reg R hR).trans (h₁.reg R hR),
    fun c hc => (h₂.cell c hc).trans (h₁.cell c hc)⟩

/-- A write to a replacement is within the frame. -/
theorem frame_setReg (h : HostState) (i : Fin 3) (v : BitVec 64) :
    Frame h (h.setReg (getRegForIndex i) v) :=
  ⟨rfl, rfl, fun _ hR => Function.update_of_ne (hR i) .., fun _ _ => rfl⟩

/-- A write to a slot of the register file is within the frame. -/
theorem frame_setCell (h : HostState) {c : Cell} (hc : isRegFile c) (v : BitVec 64) :
    Frame h (h.setCell c v) :=
  ⟨rfl, rfl, fun _ _ => rfl, fun _ hc' =>
    Function.update_of_ne (fun heq => hc' (by rwa [heq])) ..⟩

theorem frame_clobberFlags (h : HostState) : Frame h h.clobberFlags :=
  ⟨rfl, rfl, fun _ _ => rfl, fun _ _ => rfl⟩

end Values

/-! ## Primitives -/

section Primitives

variable {s : GenState} {h h' : HostState} {i : FeInstr}

/-- Code that runs on the host. -/
abbrev RunsOn {α : Type} (g : Gen α) (s : GenState) (h : HostState) (a : α) (s' : GenState)
    (h' : HostState) : Prop :=
  Runs FeInstr.exec g s h a s' h'

/-- A single instruction that the assembler encodes runs as the machine executes it. -/
theorem runs_feEnc64 (henc : i.encodable = true) (hexec : i.exec h = some h') :
    RunsOn (feEnc64 i) s h () s h' := by
  unfold feEnc64
  rw [if_pos henc]
  exact Runs.emit s hexec

theorem runs_onlyIf_pos {c : Prop} [Decidable c] {g : Gen Unit} {s' : GenState} (hc : c)
    (hg : RunsOn g s h () s' h') : RunsOn (onlyIf c g) s h () s' h' := by
  unfold onlyIf
  rwa [if_pos hc]

theorem runs_onlyIf_neg {c : Prop} [Decidable c] {g : Gen Unit} (hc : ¬ c) :
    RunsOn (onlyIf c g) s h () s h := by
  unfold onlyIf
  rw [if_neg hc]
  exact Runs.ret () s h

theorem runs_getRInfo : RunsOn getRInfo s h s.rInfo s h :=
  .bind (Runs.get s h) (Runs.ret _ s h)

theorem runs_modifyRInfo (f : RegisterInfo → RegisterInfo) :
    RunsOn (modifyRInfo f) s h () { s with rInfo := f s.rInfo } h :=
  Runs.modify _ s h

/-- The host after a register was zeroed. -/
theorem runs_zero (R : FeReg) :
    RunsOn (zero R) s h () s ((h.setReg R 0#64).clobberFlags) := by
  refine runs_feEnc64 rfl ?_
  show some ((h.setReg R (sized .s32 _ (h.reg R) (h.reg R))).clobberFlags) = _
  unfold sized AluOp.eval
  simp

end Primitives

/-! ## Eviction -/

/-- Whether the helpers write a replacement back. -/
def needsWriteBack (r : RegisterInfo) (i : Fin 3) : Prop :=
  r.replacementContent i ≠ x0 ∧ r.replacementContent i ≠ invalidReg

instance (r : RegisterInfo) (i : Fin 3) : Decidable (needsWriteBack r i) :=
  inferInstanceAs (Decidable (_ ∧ _))

/-- The host after the write-back of a replacement, if there was one. -/
def writtenBack (r : RegisterInfo) (h : HostState) (i : Fin 3) : HostState :=
  if needsWriteBack r i then h.setCell (.gp (r.replacementContent i)) (h.reg (getRegForIndex i))
  else h

section Eviction

variable {r r' : RegisterInfo} {h h' : HostState}

/-- A replacement that holds a register of the guest is stored to its slot, and the zero register
is not. -/
theorem runs_writeBack (s : GenState) (h : HostState) (i : Fin 3) :
    RunsOn (onlyIf (s.rInfo.replacementContent i ≠ x0 ∧ s.rInfo.replacementContent i ≠ invalidReg)
      (writeBack (s.rInfo.replacementContent i) (getRegForIndex i))) s h () s
      (writtenBack s.rInfo h i) := by
  unfold writtenBack
  by_cases hc : needsWriteBack s.rInfo i
  · rw [if_pos hc]
    exact runs_onlyIf_pos hc (runs_feEnc64 rfl rfl)
  · rw [if_neg hc]
    exact runs_onlyIf_neg hc

@[simp] theorem writtenBack_reg (i : Fin 3) : (writtenBack r h i).reg = h.reg := by
  unfold writtenBack
  split
  · rfl
  · rfl

/-- No slot changes but that of the register that is written back. -/
theorem writtenBack_slot (i : Fin 3) {x : Nat} (hx : x = x0 ∨ r.replacementContent i ≠ x) :
    (writtenBack r h i).cell (.gp x) = h.cell (.gp x) := by
  unfold writtenBack
  split
  · rename_i hc
    refine Function.update_of_ne (fun heq => ?_) ..
    obtain rfl := Cell.gp.inj heq
    rcases hx with hx | hx
    · exact hc.1 hx
    · exact hx rfl
  · rfl

/-- The slot that is written receives the value of the replacement. -/
theorem writtenBack_content {i : Fin 3} (hc : needsWriteBack r i) :
    (writtenBack r h i).cell (.gp (r.replacementContent i)) = h.reg (getRegForIndex i) := by
  unfold writtenBack
  rw [if_pos hc]
  exact Function.update_self ..

/-- A write back stays within the frame. -/
theorem frame_writtenBack (hr : r.WellFormed) (i : Fin 3) : Frame h (writtenBack r h i) := by
  unfold writtenBack
  split
  · rename_i hc
    have hslot : isRegFile (.gp (r.replacementContent i)) := (hr.content_lt i).resolve_right hc.2
    exact frame_setCell h hslot _
  · exact Frame.refl h

/-- Values survive when a replacement takes another register in, after what it held was
written back. -/
theorem regValue_replace (hr : r.WellFormed) {i : Fin 3} {x : Nat}
    (hcontent : r'.replacementContent = Function.update r.replacementContent i x)
    (hframe : Frame h h')
    (hother : ∀ j, j ≠ i → h'.reg (getRegForIndex j) = h.reg (getRegForIndex j))
    (hslot : ∀ y, r.replacementContent i ≠ y → h'.cell (.gp y) = h.cell (.gp y))
    (hback : r.replacementContent i ≠ x → needsWriteBack r i →
      h'.cell (.gp (r.replacementContent i)) = h.reg (getRegForIndex i))
    {y : Nat} (hy : y ≠ x0) (hyx : y ≠ x) (hylt : y < 32) : regValue r' h' y = regValue r h y := by
  have hyvalid : y ≠ invalidReg := by
    unfold invalidReg
    omega
  cases hmap : gpMap y with
  | some mapped =>
      rw [regValue_mapped hmap, regValue_mapped hmap]
      exact hframe.reg mapped (gpMap_ne_replacement hmap)
  | none =>
      have hself : r'.replacementContent i ≠ y := by
        rw [hcontent, Function.update_self]
        exact fun h => hyx h.symm
      have hne : ∀ j, j ≠ i → r'.replacementContent j = r.replacementContent j := fun j hj => by
        rw [hcontent, Function.update_of_ne hj]
      cases hfind : r.find y with
      | none =>
          -- in its slot before and after
          have hnone := RegisterInfo.find_none hfind
          have hfind' : r'.find y = none := by
            refine RegisterInfo.find_eq_none fun j => ?_
            by_cases hj : j = i
            · rwa [hj]
            · rw [hne j hj]
              exact hnone j
          rw [regValue_slot hmap hfind', regValue_slot hmap hfind]
          exact hslot y (hnone i)
      | some k =>
          have hk := RegisterInfo.find_some hfind
          rw [regValue_held hmap hfind]
          by_cases hki : k = i
          · -- `y` is the one that was thrown out: its value went to its slot
            subst hki
            have hfind' : r'.find y = none := by
              refine RegisterInfo.find_eq_none fun j => ?_
              by_cases hj : j = k
              · rwa [hj]
              · rw [hne j hj]
                intro hjy
                exact hj (hr.distinct j k (hjy.trans hk.symm) (by rwa [hjy]) (by rwa [hjy]))
            rw [regValue_slot hmap hfind', ← hk]
            exact hback (by rwa [hk]) ⟨by rwa [hk], by rwa [hk]⟩
          · -- another replacement holds it, and still does
            have hfind' : r'.find y = some k := by
              refine RegisterInfo.find_of_unique ((hne k hki).trans hk) fun j hj => ?_
              by_cases hji : j = i
              · rw [hji] at hj
                exact absurd hj hself
              · rw [hne j hji] at hj
                exact hr.distinct j k (hj.trans hk.symm) (by rwa [hj]) (by rwa [hj])
            rw [regValue_held hmap hfind']
            exact hother k hki

end Eviction

end RiaJit.Translate
