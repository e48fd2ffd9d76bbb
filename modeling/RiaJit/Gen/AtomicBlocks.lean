import RiaJit.Gen.AtomicSelect
import RiaJit.Gen.LinkedBlock
import RiaJit.Gen.Termination

/-!
# Blocks with atomic operations

Every instruction of the A extension and both products have the effect of the specification in
every state of the register cache, the minima and maxima where the address is kept. So these
instructions may stand in the blocks of a program.
-/

set_option autoImplicit false

namespace RiaJit.Translate

open EmitLogic X86

/-! ## One instruction -/

section Instruction

variable {instr : RiscInstr} {gen : Gen Unit} {f : GuestState → GuestState}

/-- The code has the effect `f` from every state of the register cache; a minimum or maximum
has it where `rs1` keeps the address. -/
def PerformsAtomic (instr : RiscInstr) (gen : Gen Unit) (f : GuestState → GuestState) : Prop :=
  ∀ g r h e, Represents x0 g r h → (instr.Compares → KeepsAddress r instr) →
    ∃ r' h', RunsOn gen ⟨r, e⟩ h () ⟨r', e⟩ h' ∧ Represents x0 (f g) r' h' ∧ Beside h h'

theorem Performs.atomic (hp : Performs gen f) : PerformsAtomic instr gen f :=
  fun g r h e hrep _ => hp g r h e hrep

/-- A minimum or maximum whose `rs1` has a host register of its own keeps the address always. -/
theorem PerformsAtomic.performs (hp : PerformsAtomic instr gen f)
    (hmap : instr.Compares → gpMap instr.regSrc1 ≠ none) : Performs gen f := by
  intro g r h e hrep
  apply hp g r h e hrep
  intro hcompares
  exact .inl (hmap hcompares)

variable (flags : Flags)

theorem translateAmoSelect_performs {a : AmoFunction} {size : MemSize} {cond : Cond}
    (hsize : size = .m32 ∨ size = .m64) (hamo : instr.mnem.amo = some (a, size))
    (hcompares : a.compares = true) (hselects : Selects cond a) (hrs1 : instr.regSrc1 < 32)
    (hrs2 : instr.regSrc2 < 32) (hrd : instr.regDest < 32) :
    PerformsAtomic instr (translateAmoSelect flags instr size cond) (instr.amo a size) := by
  intro g r h e hrep hkeeps
  exact translateAmoSelect_runs e flags hsize hselects hrep (hkeeps ⟨a, size, hamo, hcompares⟩)
    hrs1 hrs2 hrd

/-- What the emitters of `translate_a_ext.c` and those of `MUL` and `MULW` do. -/
theorem emitter_performs {emit : Flags → RiscInstr → Gen Unit}
    (hemit : atomicEmitter instr.mnem = some emit) (hrs1 : instr.regSrc1 < 32)
    (hrs2 : instr.regSrc2 < 32) (hrd : instr.regDest < 32) :
    ∃ f, instr.atomic = some f ∧ PerformsAtomic instr (emit flags instr) f := by
  have hmodify : ∀ {a : AmoFunction} {size : MemSize} {modify : MemOp → FeReg → FeInstr},
      (size = .m32 ∨ size = .m64) → Modifies a size modify →
      PerformsAtomic instr (translateAmo flags instr size modify) (instr.amo a size) :=
    fun hsize hm => (translateAmo_performs flags hsize hm hrs1 hrs2 hrd).atomic
  unfold RiscInstr.atomic
  unfold atomicEmitter at hemit
  -- one case for each instruction, in the order of the table
  split at hemit
  case h_25 => cases hemit
  all_goals
    rename_i hmnem
    obtain rfl := Option.some.inj hemit
    rw [hmnem]
    refine ⟨_, rfl, ?_⟩
  · exact (translateMUL_simulates flags hrs1 hrs2 hrd).performs.atomic
  · exact (translateMULW_simulates flags hrs1 hrs2 hrd).performs.atomic
  · exact (translateLRW_simulates flags hrs1 hrd).performs.atomic
  · exact (storeAndSucceed_simulates flags hrs1 hrs2 hrd).performs.atomic
  · exact hmodify (.inl rfl) (modifies_swap .m32)
  · exact hmodify (.inl rfl) (modifies_add .m32)
  · exact hmodify (.inl rfl) (modifies_xor .m32)
  · exact hmodify (.inl rfl) (modifies_and .m32)
  · exact hmodify (.inl rfl) (modifies_or .m32)
  · exact translateAmoSelect_performs flags (.inl rfl) (by rw [hmnem]; rfl) rfl selects_min
      hrs1 hrs2 hrd
  · exact translateAmoSelect_performs flags (.inl rfl) (by rw [hmnem]; rfl) rfl selects_max
      hrs1 hrs2 hrd
  · exact translateAmoSelect_performs flags (.inl rfl) (by rw [hmnem]; rfl) rfl selects_minu
      hrs1 hrs2 hrd
  · exact translateAmoSelect_performs flags (.inl rfl) (by rw [hmnem]; rfl) rfl selects_maxu
      hrs1 hrs2 hrd
  · exact (translateLRD_simulates flags hrs1 hrd).performs.atomic
  · exact (storeAndSucceed_simulates flags hrs1 hrs2 hrd).performs.atomic
  · exact hmodify (.inr rfl) (modifies_swap .m64)
  · exact hmodify (.inr rfl) (modifies_add .m64)
  · exact hmodify (.inr rfl) (modifies_xor .m64)
  · exact hmodify (.inr rfl) (modifies_and .m64)
  · exact hmodify (.inr rfl) (modifies_or .m64)
  · exact translateAmoSelect_performs flags (.inr rfl) (by rw [hmnem]; rfl) rfl selects_min
      hrs1 hrs2 hrd
  · exact translateAmoSelect_performs flags (.inr rfl) (by rw [hmnem]; rfl) rfl selects_max
      hrs1 hrs2 hrd
  · exact translateAmoSelect_performs flags (.inr rfl) (by rw [hmnem]; rfl) rfl selects_minu
      hrs1 hrs2 hrd
  · exact translateAmoSelect_performs flags (.inr rfl) (by rw [hmnem]; rfl) rfl selects_maxu
      hrs1 hrs2 hrd

end Instruction

/-! ## The instructions of a program -/

section Programs

variable {env : Env} {instr : RiscInstr} {f : GuestState → GuestState}

/-- Each of these instructions has an emitter. -/
theorem atomicEmitter_of_atomic (hatomic : instr.atomic = some f) :
    ∃ emit, atomicEmitter instr.mnem = some emit := by
  unfold RiscInstr.atomic at hatomic
  split at hatomic
  case h_7 =>
    obtain ⟨⟨a, size⟩, hamo, -⟩ := Option.map_eq_some_iff.1 hatomic
    unfold RiscMnem.amo at hamo
    split at hamo
    case h_19 => cases hamo
    all_goals
      rename_i hmnem
      rw [hmnem]
      exact ⟨_, rfl⟩
  all_goals
    rename_i hmnem
    rw [hmnem]
    exact ⟨_, rfl⟩

/-- `dispatch_instr` has one case for each of them. -/
theorem dispatchInstr_atomic {emit : Flags → RiscInstr → Gen Unit}
    (hemit : atomicEmitter instr.mnem = some emit) :
    dispatchInstr env instr = Emit.lift (env.others instr) := by
  unfold atomicEmitter at hemit
  split at hemit
  case h_25 => cases hemit
  all_goals
    rename_i hmnem
    unfold dispatchInstr
    rw [hmnem]
    rfl

theorem rewritten_atomic {emit : Flags → RiscInstr → Gen Unit}
    (hemit : atomicEmitter instr.mnem = some emit) : rewritten instr = instr := by
  unfold rewritten
  split
  case h_8 => rfl
  all_goals
    rename_i hmnem
    rw [hmnem] at hemit
    cases hemit

/-- What is asked of a program with atomic operations and of its settings: that of `Supported`,
the emitters of `translate_a_ext.c` and of the two products, and no minimum or maximum on an
address in a register that has no host register of its own. -/
structure SupportsAtomics (env : Env) : Prop where
  ras : env.flags.translateOptRas = false
  fusion : env.flags.translateOptFusion = false
  jalr : ∀ a instr, fetched env a = some instr → instr.mnem = .jalr → instr.regSrc1 ≠ x0
  unmarked : env.flags.translateOptChain = true → ∀ a trace b instr, Trace env a trace b →
    fetched env b = some instr → instr.mnem = .jalr →
    chainHint env.flags (entriesOf trace).getLast? instr = 0
  emitters : ∀ instr emit, atomicEmitter instr.mnem = some emit →
    env.others instr = emit env.flags instr
  mapped : ∀ a instr, fetched env a = some instr → instr.Compares → gpMap instr.regSrc1 ≠ none

/-- Such a program is one of those that the dispatcher translates correctly. -/
theorem atomics_supported (hs : SupportsAtomics env) :
    Supported env RiscInstr.rv64ma := by
  refine ⟨hs.ras, hs.fusion, hs.jalr, hs.unmarked, fun a instr f hfetch _ heffect => ?_⟩
  unfold RiscInstr.rv64ma at heffect
  split at heffect
  · rename_i hoptype
    obtain ⟨hrs1, hrs2, hrd⟩ := (fetched_registerOperands hfetch).regReg hoptype
    obtain ⟨emit, hemit⟩ := atomicEmitter_of_atomic heffect
    obtain ⟨f', hatomic, hperforms⟩ := emitter_performs env.flags hemit hrs1 hrs2 hrd
    obtain rfl : f' = f := Option.some.inj (hatomic.symm.trans heffect)
    have hp : Performs (emit env.flags instr) f' := hperforms.performs (hs.mapped a instr hfetch)
    rw [rewritten_atomic hemit]
    apply hp.lifts
    rw [dispatchInstr_atomic hemit, hs.emitters instr emit hemit]
  · cases heffect

/-- `sc.w a0, a1, (a2)`, `amoadd.w a0, a1, (a2)` and `amomin.d a0, a1, (a2)`. -/
def sumAndMinimum : List (BitVec 32) := [0x18b6252f#32, 0x00b6252f#32, 0x80b6352f#32]

/-- The translator of these three, without the return stack and without fusion. -/
def sumEnv : Env :=
  { Env.plain { translateOptRas := false, translateOptFusion := false }
      (CodeMem.ofWords 0x1000#64 sumAndMinimum) with
    others := fun instr => match atomicEmitter instr.mnem with
      | some emit => emit { translateOptRas := false, translateOptFusion := false } instr
      | none => pure () }

theorem fetched_sumAndMinimum {a : RiscAddr} {instr : RiscInstr}
    (h : fetched sumEnv a = some instr) :
    (instr.mnem = .scw ∨ instr.mnem = .amoaddw ∨ instr.mnem = .amomind) ∧
      instr.regSrc1 = 12 := by
  have hmapped : a ∈ (Finset.range sumAndMinimum.length).image fun i =>
      0x1000#64 + BitVec.ofNat 64 (4 * i) :=
    (finitelyMapped_ofWords {} 0x1000#64 sumAndMinimum (by decide)).mapped a (fetched_mapped h)
  obtain ⟨i, hi, rfl⟩ := Finset.mem_image.1 hmapped
  have hi : i < 3 := Finset.mem_range.1 hi
  have hread : ∀ b mnem, (fetched sumEnv b).map (fun instr => (instr.mnem, instr.regSrc1)) =
      some (mnem, 12) → fetched sumEnv b = some instr →
      instr.mnem = mnem ∧ instr.regSrc1 = 12 := by
    intro b mnem hall hb
    rw [hb] at hall
    exact Prod.mk.inj (Option.some.inj hall)
  interval_cases i
  · obtain ⟨hmnem, hrs1⟩ := hread 0x1000#64 .scw (by decide +kernel) h
    exact ⟨.inl hmnem, hrs1⟩
  · obtain ⟨hmnem, hrs1⟩ := hread 0x1004#64 .amoaddw (by decide +kernel) h
    exact ⟨.inr (.inl hmnem), hrs1⟩
  · obtain ⟨hmnem, hrs1⟩ := hread 0x1008#64 .amomind (by decide +kernel) h
    exact ⟨.inr (.inr hmnem), hrs1⟩

theorem supportsAtomics_sumAndMinimum : SupportsAtomics sumEnv := by
  have hjalr : ∀ {a instr}, fetched sumEnv a = some instr → instr.mnem ≠ .jalr := by
    intro a instr hfetch hmnem
    rcases (fetched_sumAndMinimum hfetch).1 with h | h | h
    all_goals cases hmnem.symm.trans h
  refine ⟨rfl, rfl, fun a instr hfetch hmnem => absurd hmnem (hjalr hfetch),
    fun _ a trace b instr _ hfetch hmnem => absurd hmnem (hjalr hfetch), ?_, ?_⟩
  · intro instr emit hemit
    show (match atomicEmitter instr.mnem with
      | some emit => emit { translateOptRas := false, translateOptFusion := false } instr
      | none => pure ()) = _
    rw [hemit]
    rfl
  · intro a instr hfetch _ hnone
    rw [(fetched_sumAndMinimum hfetch).2] at hnone
    cases hnone

theorem supported_sumAndMinimum : Supported sumEnv RiscInstr.rv64ma :=
  atomics_supported supportsAtomics_sumAndMinimum

end Programs

end RiaJit.Translate
