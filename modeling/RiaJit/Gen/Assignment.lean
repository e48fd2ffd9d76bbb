import RiaJit.Gen.LocalJumps
import RiaJit.Gen.PairOperands

/-!
# Assignments

What it means that the code of an instruction assigns a value to a guest register, for
code with local jumps, and the common end of the emitters that work in `AX` and `DX`.
-/

set_option autoImplicit false

namespace RiaJit.Translate

open EmitLogic X86

/-- The emission appends code that gives the guest register `d` the value `v`, and leaves the
other registers, the guest's memory and the rest of the host alone. -/
def Assigns (env : Env) (emit : Emit Unit) (s : EmitState) (g : GuestState) (h : HostState)
    (d : Nat) (v : BitVec 64) : Prop :=
  ∃ is r' h', Appends emit s () is ⟨r', s.gen.err⟩ ∧
    RunsTo env.enc (Emit.current env s) is h h' ∧ Represents x0 (g.write d v) r' h' ∧ Outside h h'

section Assignments

variable {env : Env} {emit : Emit Unit} {s : EmitState} {g : GuestState} {h h' : HostState}
  {d : Nat} {v w : BitVec 64} {is js : List FeInstr} {r' : RegisterInfo} {gen gen' : GenState}

theorem Appends.unique (h₁ : Appends emit s () is gen) (h₂ : Appends emit s () js gen') :
    is = js ∧ gen = gen' := by
  have heq := Except.ok.inj (h₁.symm.trans h₂)
  have hstate := congrArg Prod.snd heq
  exact ⟨List.append_cancel_left (congrArg EmitState.code hstate), congrArg EmitState.gen hstate⟩

/-- Code that faults assigns nothing. -/
theorem not_assigns (happ : Appends emit s () is gen)
    (hstop : ∀ h', ¬ RunsTo env.enc (Emit.current env s) is h h') :
    ¬ Assigns env emit s g h d v := by
  rintro ⟨js, r', h', happ', hrun, -⟩
  rw [← (happ.unique happ').1] at hrun
  exact hstop h' hrun

/-- Code that runs assigns one value. -/
theorem assigns_iff (hlt : env.enc.codeSize is < 2 ^ 64) (hd : d < 32)
    (happ : Appends emit s () is ⟨r', s.gen.err⟩)
    (hrun : RunsTo env.enc (Emit.current env s) is h h')
    (hrep : Represents x0 (g.write d w) r' h') (hout : Outside h h') :
    Assigns env emit s g h d v ↔ d = x0 ∨ w = v := by
  constructor
  · rintro ⟨js, r'', h'', happ', hrun', hrep', -⟩
    obtain ⟨rfl, hgen⟩ := happ.unique happ'
    obtain rfl : r' = r'' := congrArg GenState.rInfo hgen
    obtain rfl := hrun.unique hlt hrun'
    by_cases hx0 : d = x0
    · exact .inl hx0
    · right
      have hw := hrep.regs d hx0 hx0 hd
      have hv := hrep'.regs d hx0 hx0 hd
      rw [g.write_reg_self hx0] at hw hv
      exact hw.symm.trans hv
  · intro hvalue
    refine ⟨is, r', h', happ, hrun, ?_, hout⟩
    rcases hvalue with rfl | rfl
    · exact hrep
    · exact hrep

/-- Straight code assigns one value. -/
theorem assigns_lift {g' : Gen Unit} {n : Nat} (hbound : Bounded n g') (hn : n < 2 ^ 60)
    (hd : d < 32)
    (hrun : RunsOn g' s.gen h () ⟨r', s.gen.err⟩ h')
    (hrep : Represents x0 (g.write d w) r' h') (hout : Outside h h') :
    Assigns env (Emit.lift g') s g h d v ↔ d = x0 ∨ w = v := by
  obtain ⟨is, hgen, hcode⟩ := hrun
  have hlength := hbound s.gen
  rw [hgen] at hlength
  have hlt : env.enc.codeSize is < 2 ^ 64 := by
    have hle := env.enc.codeSize_le is
    dsimp only at hlength
    omega
  exact assigns_iff hlt hd (appends_lift hgen) (runsTo_straight hlt hcode) hrep hout

end Assignments

/-! ## Results in `AX` and `DX` -/

/-- The registers that an instruction with implicit operands overwrites: `AX`, `DX` and where the
destination lies. -/
def ResultScratch (R Q : FeReg) : Prop := Q = .ax ∨ Q = .dx ∨ Q = R

section Results

variable {g : GuestState} {r : RegisterInfo} {h h' : HostState} {d : Nat} {R : FeReg}

theorem setDxAx_scratches (h : HostState) (dx ax : BitVec 64) (R : FeReg) :
    Scratches h (h.setDxAx dx ax) (ResultScratch R) := by
  refine ⟨fun Q hQ => ?_, rfl, rfl, rfl⟩
  unfold ResultScratch at hQ
  push Not at hQ
  exact (Function.update_of_ne hQ.1 ..).trans (Function.update_of_ne hQ.2.1 ..)

/-- A register is moved to the destination, if it is not the destination. -/
theorem moveCode_runs (h : HostState) (R src : FeReg) :
    ∃ h', runCode FeInstr.exec (if R ≠ src then [.movrr .s64 R src] else []) h = some h' ∧
      Writes h h' R (h.reg src) := by
  by_cases hne : R ≠ src
  · rw [if_pos hne]
    exact ⟨_, rfl, writes_setReg h R _⟩
  · rw [if_neg hne, ← not_not.1 hne]
    exact ⟨h, rfl, writes_refl h R⟩

/-- The value that is left where the destination lies is the destination's. -/
theorem Represents.result (hrep : Represents d g r h) (hd : d < 32) (hloc : Located r R d)
    (hdx : r.replacementContent 1 = invalidReg)
    (hax : r.replacementContent 0 = invalidReg ∨ r.replacementContent 0 = d)
    (hs : Scratches h h' (ResultScratch R)) :
    Represents x0 (g.write d (h'.reg R)) r h' ∧ Outside h h' := by
  have hsp : ¬ ResultScratch R .sp := by
    rintro (hsp | hsp | hsp)
    · exact absurd hsp nofun
    · exact absurd hsp nofun
    · exact hloc.ne_sp hsp.symm
  refine ⟨hrep.scratch hloc hd hs (fun i hi => ?_) fun y mapped hmap hS => ?_, hs.outside hsp⟩
  · rcases hi with hi | hi | hi
    · rw [getRegForIndex_injective (j := 0) hi]
      exact hax
    · rw [getRegForIndex_injective (j := 1) hi]
      exact .inl hdx
    · rcases hloc with hmap | ⟨-, j, hj, hcontent⟩
      · exact absurd hi.symm (gpMap_ne_replacement hmap i)
      · rw [getRegForIndex_injective (hi.trans hj)]
        exact .inr hcontent
  · rcases hS with hax | hdx | hR
    · exact absurd hax (gpMap_ne_replacement hmap 0)
    · exact absurd hdx (gpMap_ne_replacement hmap 1)
    · rcases hloc with hmap' | ⟨-, j, hj, -⟩
      · exact gpMap_injective hmap (by rwa [hR])
      · exact absurd (hR.trans hj) (gpMap_ne_replacement hmap j)

end Results

end RiaJit.Translate
