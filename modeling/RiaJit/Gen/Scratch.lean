import RiaJit.Gen.BlockSimulation

/-!
# Instructions that use the scratch slot

`saveScratchReg` and `loadScratchReg` of `util.h` give an emitter the stack pointer as one
more register while it lies in a slot of the swap file. Such code simulates its instruction
too, up to what is left in that slot.
-/

set_option autoImplicit false

namespace RiaJit

open EmitLogic X86

/-! ## Fields of a state after an assignment -/

namespace X86.HostState

variable (h : HostState)

@[simp] theorem cell_setCell_self (c : Cell) (v : BitVec 64) : (h.setCell c v).cell c = v :=
  Function.update_self ..

theorem cell_setCell_of_ne {c d : Cell} (hne : d ≠ c) (v : BitVec 64) :
    (h.setCell c v).cell d = h.cell d :=
  Function.update_of_ne hne ..

@[simp] theorem reg_setCell (c : Cell) (v : BitVec 64) : (h.setCell c v).reg = h.reg := rfl

@[simp] theorem reg_setReg_self (r : FeReg) (v : BitVec 64) : (h.setReg r v).reg r = v :=
  Function.update_self ..

theorem reg_setReg_of_ne {r r' : FeReg} (hne : r' ≠ r) (v : BitVec 64) :
    (h.setReg r v).reg r' = h.reg r' :=
  Function.update_of_ne hne ..

@[simp] theorem cell_setReg (r : FeReg) (v : BitVec 64) : (h.setReg r v).cell = h.cell := rfl

end X86.HostState

namespace Translate

/-! ## The scratch slot -/

/-- `SWAP_SCRATCH`, the slot behind those of the registers that are kept for C code. -/
def swapScratch : Cell := .swap 6

/-- `saveScratchReg`. -/
def saveScratchReg (scratch : FeReg) : Gen Unit := feEnc64 (.mov64mrCell swapScratch scratch)

/-- `loadScratchReg`. -/
def loadScratchReg (scratch : FeReg) : Gen Unit := feEnc64 (.mov64rmCell scratch swapScratch)

/-- What an instruction leaves alone besides guest registers, guest memory and the scratch
slot. -/
structure Beside (h h' : HostState) : Prop where
  stack : h'.stack = h.stack
  sp : h'.reg .sp = h.reg .sp
  cell : ∀ c, ¬ isRegFile c → c ≠ swapScratch → h'.cell c = h.cell c

/-- The code that a generator emits has the effect `f` on the guest, and changes the host as `F`
allows. With `Outside` this is `Simulates`. -/
def SimulatesUpTo (F : HostState → HostState → Prop) (gen : Gen Unit)
    (f : GuestState → GuestState) : Prop :=
  ∀ g r h e, Represents x0 g r h →
    ∃ r' h', RunsOn gen ⟨r, e⟩ h () ⟨r', e⟩ h' ∧ Represents x0 (f g) r' h' ∧ F h h'

/-- The code has the effect `f` on the guest, and may use the scratch slot. -/
abbrev Performs : Gen Unit → (GuestState → GuestState) → Prop := SimulatesUpTo Beside

section

variable {h h' h'' : HostState} {gen gen' : Gen Unit} {f f' : GuestState → GuestState}

theorem Beside.refl (h : HostState) : Beside h h := ⟨rfl, rfl, fun _ _ _ => rfl⟩

/-- What two pieces of code leave alone, both together leave alone. -/
theorem Beside.trans (h₁ : Beside h h') (h₂ : Beside h' h'') : Beside h h'' :=
  ⟨h₂.stack.trans h₁.stack, h₂.sp.trans h₁.sp,
    fun c hc hs => (h₂.cell c hc hs).trans (h₁.cell c hc hs)⟩

/-- Code that works on guest registers works beside what is saved for them. -/
theorem Outside.beside (hout : Outside h h') : Beside h h' :=
  ⟨hout.stack, hout.sp, fun c hc _ => hout.cell c hc⟩

/-- The exits of a block do not lie in the scratch slot. -/
theorem Beside.chainEnd (hb : Beside h h') : h'.cell .chainEnd = h.cell .chainEnd := by
  apply hb.cell
  · exact id
  · exact Cell.noConfusion

/-- A simulation of a step performs it. -/
theorem Simulates.performs (hs : Simulates gen f) : Performs gen f := by
  intro g r h e hrep
  obtain ⟨r', h', hrun, hrep', hout⟩ := hs g r h e hrep
  exact ⟨r', h', hrun, hrep', hout.beside⟩

/-- Two pieces of code perform one step after the other. -/
theorem Performs.bind (h₁ : Performs gen f) (h₂ : Performs gen' f') :
    Performs (gen >>= fun _ => gen') fun g => f' (f g) := by
  intro g r h e hrep
  obtain ⟨r₁, h₁, hrun₁, hrep₁, hb₁⟩ := h₁ g r h e hrep
  obtain ⟨r₂, h₂, hrun₂, hrep₂, hb₂⟩ := h₂ (f g) r₁ h₁ e hrep₁
  exact ⟨r₂, h₂, hrun₁.bind hrun₂, hrep₂, hb₁.trans hb₂⟩

/-- What is emitted does not depend on the host that runs it. -/
theorem SimulatesUpTo.emission {F : HostState → HostState → Prop} (hp : SimulatesUpTo F gen f)
    {r : RegisterInfo} (hwf : r.WellFormed) (e : Bool) :
    ∃ code r', gen ⟨r, e⟩ = ((), code, ⟨r', e⟩) ∧ r'.WellFormed ∧
      ∀ g h, Represents x0 g r h → ∃ h', runCode FeInstr.exec code h = some h' ∧
        Represents x0 (f g) r' h' ∧ F h h' := by
  -- any host tells what is emitted
  obtain ⟨r', _, ⟨code, hgen, -⟩, hrep, -⟩ := hp _ r _ e
    (represents_self hwf ⟨fun _ => 0#64, none, fun _ => 0#64, fun _ => 0#8, []⟩)
  refine ⟨code, r', hgen, hrep.wf, fun g h hrep => ?_⟩
  obtain ⟨r'', h', ⟨code', hgen', hrun⟩, hrep', hb⟩ := hp g r h e hrep
  obtain ⟨-, hrest⟩ := Prod.mk.inj (hgen.symm.trans hgen')
  obtain ⟨rfl, hstate⟩ := Prod.mk.inj hrest
  obtain rfl : r' = r'' := congrArg GenState.rInfo hstate
  exact ⟨h', hrun, hrep', hb⟩

end

end Translate

end RiaJit
