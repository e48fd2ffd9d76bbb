import RiaJit.Gen.Exits
import RiaJit.Parser.RegisterOperands

/-!
# The last entry of a block

The code of an entry that ends a block, and of the end of the block behind it. From the
guest's state before the entry this code leaves the block for the address at which the
guest continues: by a jump to finished code, with the address stored for the dispatcher,
or with a system call.
-/

set_option autoImplicit false

namespace RiaJit.Translate

open EmitLogic X86 StateExcept Checkpoints

/-! ## Code -/

/-- The instructions of `boundary`, under `flag_verbose_disassembly`. -/
def boundaryCode (flags : Flags) : List FeInstr :=
  if flags.verboseDisassembly then [.nop, .nop, .nop] else []

/-- The end of a block whose replacements are empty. -/
def endingCode (env : Env) (linkNull : Bool) : List FeInstr :=
  (if env.flags.translateOptChain = true ∧ linkNull = true then [.mov64miCell .chainEnd 0#64]
    else []) ++ [.ret]

/-- The calls of `translate_ECALL`, with the end of the block. -/
def ecallCode (env : Env) (a : RiscAddr) : List FeInstr :=
  [.call env.runtime.saveContext, .mov64ri .di a, .mov64ri .si env.runtime.gpRegFile,
    .call env.runtime.emulateEcall, .alurr .xor .s32 .si .si,
    .call env.runtime.loadExecuteSaveContext] ++ (boundaryCode env.flags ++ endingCode env true)

/-- The guest address of an exit of a block with this last entry, by the condition of the
jump that may be written over its stub. -/
def exitTarget (entry : RiscInstr) : Option Cond → RiscAddr
  | some _ => entry.addr + 4#64
  | none => if entry.mnem = .pcNextInst then entry.imm else entry.addr + entry.imm

/-- The address of a stub within code. -/
def StubIn (enc : Encoder) (start : BitVec 64) (is : List FeInstr) (stub : BitVec 64)
    (cond : Option Cond) : Prop :=
  ∃ pre i post, is = pre ++ i :: post ∧ stub = enc.after start pre ∧ i.stub = some cond

/-! ## Ways out of a block -/

/-- What the dispatcher finds in `chain_end` and `chain_type`: nothing, or the stub of an exit
to the address. -/
def Noted (env : Env) (entry : RiscInstr) (stubs : BitVec 64 → Option Cond → Prop)
    (target : RiscAddr) (h : HostState) : Prop :=
  h.cell .chainEnd = 0#64 ∨
    ∃ cond, stubs (h.cell .chainEnd) cond ∧ exitTarget entry cond = target ∧
      (h.cell .chainType).setWidth 32 = (env.enc.jumpMnem cond).setWidth 32

/-- How a block is left for the guest's next address. -/
inductive Way (env : Env) (program : Program) (fin : RiscAddr → CacheLoc → Prop) (code : CodeAt)
    (entry : RiscInstr) (stubs : BitVec 64 → Option Cond → Prop) (c : GuestAt) (h₀ : HostState)
    (m : Cpu) : Prop
  | jump : entry.mnem ≠ .ecall → AtJump env fin code c.addr m →
      m.host.cell .chainEnd = h₀.cell .chainEnd → Way env program fin code entry stubs c h₀ m
  | finish : entry.mnem ≠ .ecall → code m.rip = some .ret → m.host.cell (.gp pc) = c.addr →
      (env.flags.translateOptChain = true → Noted env entry stubs c.addr m.host) →
      Way env program fin code entry stubs c h₀ m
  | call : AtEcall program c → Holds env.enc code m.rip (ecallCode env c.addr) →
      Way env program fin code entry stubs c h₀ m

/-- The block is left: the host holds the guest's state between two blocks. -/
structure Leaves (env : Env) (program : Program) (fin : RiscAddr → CacheLoc → Prop)
    (code : CodeAt) (entry : RiscInstr) (stubs : BitVec 64 → Option Cond → Prop) (c : GuestAt)
    (h₀ : HostState) (m : Cpu) : Prop where
  boundary : AtBoundary c.state m.host
  kept : Kept h₀ m.host
  way : Way env program fin code entry stubs c h₀ m

/-- The last part of a block leaves it for where `follows` says the guest continues, whatever
jumps have been written over its stubs. -/
def TailOk (env : Env) (program : Program) (finished : RiscAddr → CacheLoc → Prop)
    (entry : RiscInstr) (follows : GuestState → GuestAt → Prop) (r : RegisterInfo)
    (start : BitVec 64) (is : List FeInstr) : Prop :=
  ∀ (fin : RiscAddr → CacheLoc → Prop) code g h c, (∀ a loc, finished a loc → fin a loc) →
    HoldsLinked env.enc code (fun cond loc => fin (exitTarget entry cond) loc) start is →
    Represents x0 g r h → follows g c →
    (env.flags.translateOptChain = true → h.cell .chainEnd = 0#64) →
    Arrives (env.enc.step code) (Leaves env program fin code entry (StubIn env.enc start is) c h)
      ⟨start, h⟩

/-! ## Emission -/

section Emission

variable {env : Env} {r : RegisterInfo} {e : Bool}

/-- The code of a sequence. -/
theorem bind_emission {α β : Type} {x : Gen α} {k : α → Gen β} {s s₁ s₂ : GenState} {a : α} {b : β}
    {is js : List FeInstr} (hx : x s = (a, is, s₁)) (hk : k a s₁ = (b, js, s₂)) :
    (x >>= k) s = (b, is ++ js, s₂) := by
  show ((k (x s).1 (x s).2.2).1, (x s).2.1 ++ (k (x s).1 (x s).2.2).2.1, _) = _
  rw [hx, hk]

/-- The code of two steps stands one after the other. -/
theorem then_emission {α β : Type} {x : Gen α} {y : Gen β} {s s₁ s₂ : GenState} {a : α} {b : β}
    {is js : List FeInstr} (hx : x s = (a, is, s₁)) (hy : y s₁ = (b, js, s₂)) :
    (x >>= fun _ => y) s = (b, is ++ js, s₂) :=
  bind_emission hx hy

theorem onlyIf_emission_neg {c : Prop} [Decidable c] {x : Gen Unit} (hc : ¬ c) (s : GenState) :
    onlyIf c x s = ((), [], s) := by
  unfold onlyIf
  rw [if_neg hc]
  rfl

/-- A replacement that holds nothing is not stored. -/
theorem invalidateReplacement_empty (i : Fin 3) (h : r.replacementContent i = invalidReg) :
    invalidateReplacement i ⟨r, e⟩ = ((), [], ⟨r.note i invalidReg 0, e⟩) := by
  have hskip : ¬ (r.replacementContent i ≠ x0 ∧ r.replacementContent i ≠ invalidReg) :=
    fun hc => hc.2 h
  exact bind_emission (x := getRInfo) rfl
    (then_emission (onlyIf_emission_neg hskip ⟨r, e⟩) (rfl : modifyRInfo _ _ = _))

/-- The contents after `invalidateAllReplacements`. -/
def cleared (r : RegisterInfo) : RegisterInfo :=
  ((r.note 0 invalidReg 0).note 1 invalidReg 0).note 2 invalidReg 0

/-- After giving up all replacements none holds anything. -/
theorem cleared_empty (r : RegisterInfo) : (cleared r).Empty := fun i =>
  match i with
  | 0 => rfl
  | 1 => rfl
  | 2 => rfl

theorem cleared_recency (r : RegisterInfo) (i : Fin 3) : (cleared r).replacementRecency i = 0 :=
  match i with
  | 0 => rfl
  | 1 => rfl
  | 2 => rfl

theorem cleared_wellFormed (r : RegisterInfo) : (cleared r).WellFormed := by
  refine ⟨fun i => .inr (cleared_empty r i), fun i j _ _ hvalid => ?_, fun i => ?_,
    fun i j _ hold => ?_, fun i => ?_⟩
  · exact absurd (cleared_empty r i) hvalid
  · exact iff_of_true (cleared_recency r i) (cleared_empty r i)
  · exact absurd (cleared_recency r i) hold
  · rw [cleared_recency]
    exact Nat.zero_le _

/-- What the bookkeeping looks like after that does not depend on the code. -/
theorem invalidateAll_rInfo (s : GenState) :
    (invalidateAllReplacements s).2.2.rInfo = cleared s.rInfo := by
  have hone : ∀ (i : Fin 3) (s : GenState),
      (invalidateReplacement i s).2.2.rInfo = s.rInfo.note i invalidReg 0 := by
    intro i s
    show ((onlyIf _ (writeBack _ _) s : Unit × List FeInstr × GenState).2.2).rInfo.note i _ _ = _
    congr 1
    unfold onlyIf
    split
    · unfold writeBack feEnc64
      split
      · rfl
      · rfl
    · rfl
  show (invalidateReplacement 2 (invalidateReplacement 1
    (invalidateReplacement 0 s).2.2).2.2).2.2.rInfo = _
  rw [hone, hone, hone]
  rfl

/-- Where no replacement holds a register, nothing is written back. -/
theorem invalidateAll_empty (hr : r.Empty) :
    invalidateAllReplacements ⟨r, e⟩ = ((), [], ⟨cleared r, e⟩) := by
  have h₁ : (r.note 0 invalidReg 0).replacementContent 1 = invalidReg := hr 1
  have h₂ : ((r.note 0 invalidReg 0).note 1 invalidReg 0).replacementContent 2 = invalidReg := hr 2
  exact bind_emission (invalidateReplacement_empty 0 (hr 0))
    (bind_emission (invalidateReplacement_empty 1 h₁) (invalidateReplacement_empty 2 h₂))

/-- The boundary is an instruction of its own in verbose mode only. -/
theorem boundary_emission (flags : Flags) (s : GenState) :
    onlyIf flags.verboseDisassembly boundary s = ((), boundaryCode flags, s) := by
  unfold onlyIf boundaryCode
  split
  · rfl
  · rfl

/-- With nothing cached the end of a block is its ending code. -/
theorem blockEnd_empty (env : Env) (e : Bool) (hr : r.Empty) (linkNull : Bool) :
    blockEnd env linkNull ⟨r, e⟩ = ((), endingCode env linkNull, ⟨cleared r, e⟩) := by
  have hlink : onlyIf (env.flags.translateOptChain = true ∧ linkNull = true)
      (feEnc64 (.mov64miCell .chainEnd 0#64)) ⟨cleared r, e⟩ = ((), if
        env.flags.translateOptChain = true ∧ linkNull = true then [.mov64miCell .chainEnd 0#64]
        else [], ⟨cleared r, e⟩) := by
    unfold onlyIf
    split
    · rfl
    · rfl
  exact (then_emission (invalidateAll_empty hr) (then_emission hlink rfl)).trans rfl

/-- After the end of a block nothing is cached. -/
theorem blockEnd_rInfo (linkNull : Bool) (s : GenState) :
    (blockEnd env linkNull s).2.2.rInfo = cleared s.rInfo := by
  have hcell : ∀ (c : Prop) [Decidable c] (s : GenState),
      ((onlyIf c (feEnc64 (.mov64miCell .chainEnd 0#64)) s : Unit × List FeInstr × GenState).2.2) =
        s := by
    intro c _ s
    unfold onlyIf
    split
    · rfl
    · rfl
  show (onlyIf _ (feEnc64 (.mov64miCell .chainEnd 0#64)) (invalidateAllReplacements s).2.2 :
    Unit × List FeInstr × GenState).2.2.rInfo = _
  rw [hcell, invalidateAll_rInfo]

/-- Code of the register cache is appended and nothing else of the state changes. -/
theorem lift_ok {α : Type} {x : Gen α} {s s' : EmitState} {a : α}
    (h : Emit.lift x s = .ok (a, s')) :
    s' = { s with code := s.code ++ (x s.gen).2.1, gen := (x s.gen).2.2 } :=
  (congrArg Prod.snd (Except.ok.inj h)).symm

/-- An error that is not there at the end was not there before. -/
theorem lift_err {x : Gen Unit} {s s' : EmitState} (hx : KeepsErr x)
    (h : Emit.lift x s = .ok ((), s')) (herr : s'.gen.err = false) : s.gen.err = false := by
  rw [lift_ok h] at herr
  exact hx.before herr

/-- What a simulation emits does not depend on the host that runs it. -/
theorem Simulates.emission {gen : Gen Unit} {f : GuestState → GuestState} (hs : Simulates gen f)
    (hwf : r.WellFormed) (e : Bool) :
    ∃ code r', gen ⟨r, e⟩ = ((), code, ⟨r', e⟩) ∧ r'.WellFormed ∧
      ∀ g h, Represents x0 g r h → ∃ h', runCode FeInstr.exec code h = some h' ∧
        Represents x0 (f g) r' h' ∧ Outside h h' :=
  SimulatesUpTo.emission hs hwf e

/-- Counting does nothing for the guest. -/
theorem simulates_profiler (flags : Flags) (x : Nat) :
    Simulates (recordGpProfiler flags x) id := by
  intro g r h e hrep
  obtain ⟨h', hrun, hc⟩ := recordGpProfiler_runs (h := h) flags x ⟨r, e⟩
  exact ⟨r, h', hrun, hc.represents hrep, hc.frame.outside⟩

end Emission

/-! ## From an exit to the end of the block -/

section Leaving

variable {env : Env} {program : Program} {fin : RiscAddr → CacheLoc → Prop} {code : CodeAt}
  {entry : RiscInstr} {stubs : BitVec 64 → Option Cond → Prop} {c : GuestAt} {a : BitVec 64}
  {h h₀ : HostState} {is : List FeInstr} {exit : Option Cond → BitVec 64 → Prop}

theorem runCode_boundary (flags : Flags) (h : HostState) :
    runCode FeInstr.exec (boundaryCode flags) h = some h := by
  unfold boundaryCode
  split
  · rfl
  · rfl

/-- The end of a block is its return to the dispatcher. -/
theorem ending_reaches
    (hlinked : HoldsLinked env.enc code exit a (boundaryCode env.flags ++ endingCode env false)) :
    ∃ a', env.enc.Reaches code ⟨a, h⟩ ⟨a', h⟩ ∧ code a' = some .ret := by
  have hend : endingCode env false = [.ret] := by
    unfold endingCode
    rw [if_neg (fun hc => Bool.false_ne_true hc.2)]
    rfl
  rw [hend] at hlinked
  obtain ⟨hboundary, hret, -⟩ := allAt_append.1 hlinked
  refine ⟨_, HoldsLinked.reaches hboundary (runCode_boundary _ h), ?_⟩
  rcases hret with hret | ⟨cond, loc, hcond, -⟩
  · exact hret
  · cases hcond

/-- The address is parked and the block returns to the dispatcher. -/
theorem Parked.leaves {stub : BitVec 64} {cond : Option Cond} {target : RiscAddr} {h' : HostState}
    (hmnem : entry.mnem ≠ .ecall)
    (hp : Parked env stub cond target h h')
    (hlinked : HoldsLinked env.enc code exit a (boundaryCode env.flags ++ endingCode env false))
    (hstub : env.flags.translateOptChain = true → stubs stub cond)
    (htarget : exitTarget entry cond = target) (hb : AtBoundary c.state h)
    (haddr : c.addr = target) (hkept : Kept h₀ h) :
    Arrives (env.enc.step code) (Leaves env program fin code entry stubs c h₀) ⟨a, h'⟩ := by
  obtain ⟨a', hreach, hret⟩ := ending_reaches (h := h') hlinked
  refine ⟨_, hreach, hp.boundary hb, hkept.trans hp.kept,
    .finish hmnem hret (hp.addr.trans haddr.symm) ?_⟩
  intro hchain
  obtain ⟨hend, htype⟩ := hp.note hchain
  refine .inr ⟨cond, ?_, htarget.trans haddr.symm, htype⟩
  rw [hend]
  exact hstub hchain

/-- An exit that is not subject to a condition leaves the block. -/
theorem ExitCode.leaves {target : RiscAddr} (hcode : ExitCode env fin target is)
    (hmnem : entry.mnem ≠ .ecall) (htarget : exitTarget entry none = target)
    (hlinked : HoldsLinked env.enc code (fun cond loc => fin (exitTarget entry cond) loc) a
      (is ++ (boundaryCode env.flags ++ endingCode env false)))
    (hstub : ∀ post, is = .leaRip .ax :: post → stubs a none) (hb : AtBoundary c.state h)
    (haddr : c.addr = target) (hkept : Kept h₀ h)
    (hend : h.cell .chainEnd = h₀.cell .chainEnd) :
    Arrives (env.enc.step code) (Leaves env program fin code entry stubs c h₀) ⟨a, h⟩ := by
  obtain ⟨hheld, hending⟩ := allAt_append.1 hlinked
  obtain ⟨m, hreach, hout⟩ := hcode.arrives hheld (fun loc hfin => htarget ▸ hfin) h
  refine Arrives.steps hreach ?_
  rcases hout with ⟨hjump, hhost⟩ | ⟨hrip, hp, hlea⟩
  · rw [← hhost] at hb hkept hend
    exact .here ⟨hb, hkept, .jump hmnem (haddr ▸ hjump) hend⟩
  · rw [← hrip] at hending
    exact hp.leaves hmnem hending (fun hchain => (hlea hchain).elim hstub) htarget hb haddr hkept

end Leaving

end RiaJit.Translate
