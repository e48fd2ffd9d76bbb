import RiaJit.Gen.LaidOut
import RiaJit.Main.Context
import RiaJit.X86.CodeMemory

/-!
# The dispatcher

Runs of `transcode_loop` with the code that it executes: the translation of the next block,
`chain`, the context switches, the instructions of the blocks and the system calls. The
instruction memory is part of the state, since blocks are added and jumps are written over
their stubs.
-/

set_option autoImplicit false

namespace RiaJit.Translate

open EmitLogic X86

/-! ## Code memory -/

/-- A block is written to the instruction memory. What a garbled block leaves there is not
known. -/
def placeBlock (env : Env) (b : Block) (code : CodeAt) : CodeAt :=
  env.enc.overwrite b.head.toNat (b.finish env)
    (if b.garbled then fun _ => none else env.enc.fetch b.head b.code) code

/-- The blocks that have been translated since `old` are written, the latest one last. -/
def placeNew (env : Env) (old new : TransState) (code : CodeAt) : CodeAt :=
  ((new.blocks.take (new.blocks.length - old.blocks.length)).map Prod.snd).foldr
    (placeBlock env) code

/-- The jumps that blocks are chained with. -/
def chainJumps : List (Option Cond) :=
  [none, some .z, some .nz, some .l, some .ge, some .c, some .nc, some .ns, some .g, some .a]

/-- `chain`, none where the assembler fails. -/
def chain (env : Env) (target : CacheLoc) (h : HostState) (code : CodeAt) :
    Option (HostState × CodeAt) :=
  if env.flags.translateOptChain = true ∧ h.cell .chainEnd ≠ 0#64 then do
    -- `chain_type` is a `uint32_t`
    let cond ← chainJumps.find? fun cond =>
      (env.enc.jumpMnem cond).setWidth 32 == (h.cell .chainType).setWidth 32
    let jump ← env.enc.jumpForm (h.cell .chainEnd) cond true target
    return (h.setCell .chainEnd 0#64, env.enc.write (h.cell .chainEnd) jump code)
  else some (h, code)

/-! ## States -/

/-- Where a run is: at the head of the loop, before `chain`, before `execute_cached`, in emitted
code, behind the loop, or ended by `panic`. -/
inductive Phase where
  | head
  | translated (cacheLoc : CacheLoc)
  | chained (cacheLoc : CacheLoc)
  | running (rip : BitVec 64)
  | done
  | aborted
deriving DecidableEq

/-- The variables of the loop, the instruction memory, and the host as it was when the context
was entered last. -/
structure Globals where
  code : CodeAt
  trans : TransState
  nextPc : RiscAddr
  finalize : Bool
  caller : HostState

/-- A state of a run. -/
structure RunState where
  phase : Phase
  host : HostState
  globals : Globals

/-- The state before the first iteration. -/
def RunState.initial (pos : CacheLoc) (entry : RiscAddr) (code : CodeAt) (h : HostState) :
    RunState :=
  ⟨.head, h, code, .initial pos, entry, false, h⟩

/-! ## C code -/

/-- `load_execute_save_context` is called with `(loc, true)` by code that may change registers. -/
structure CalledWith (loc : CacheLoc) (h h' : HostState) : Prop where
  loc : h'.reg .di = loc
  execute : (h'.reg .si).setWidth 32 = 1#32
  cell : h'.cell = h.cell
  mem : h'.mem = h.mem
  stack : h'.stack = h.stack

/-- The registers of the guest as `emulate_ecall` reads them. -/
def fileArgs (h : HostState) (y : Nat) : BitVec 64 :=
  if y ≠ x0 ∧ y < 32 then h.cell (.gp y) else 0#64

/-- `emulate_ecall`: a system call of the guest, by a function that keeps what C functions
keep. -/
structure EmulatesEcall (sys : Syscalls) (h h' : HostState) (ended : Bool) : Prop where
  call : sys (fileArgs h) h.mem (h'.cell (.gp a0)) h'.mem ended
  addr : h'.cell (.gp pc) = h.reg .di + 4#64
  cell : ∀ c, c ≠ .gp a0 → c ≠ .gp pc → h'.cell c = h.cell c
  kept : ∀ R ∈ calleeSaved, h'.reg R = h.reg R
  sp : h'.reg .sp = h.reg .sp
  stack : h'.stack = h.stack

/-! ## Steps -/

section

variable (env : Env) (sys : Syscalls) (resume : BitVec 64)

/-- One step of a run. `resume` is the address behind the call in `load_execute_save_context`;
there the context is saved and C code goes on. -/
inductive RunStep : RunState → RunState → Prop
  | finish {h : HostState} {c : Globals} : c.finalize = true →
      RunStep ⟨.head, h, c⟩ ⟨.done, h, c⟩
  | translate {h : HostState} {c : Globals} {fuel : Nat} {loc : CacheLoc} {t : TransState} :
      c.finalize = false → transcode env fuel c.nextPc c.trans = .ok (loc, t) →
      RunStep ⟨.head, h, c⟩
        ⟨.translated loc, h, { c with trans := t, code := placeNew env c.trans t c.code }⟩
  | translateAbort {h : HostState} {c : Globals} {fuel : Nat} {reason : Abort} :
      c.finalize = false → transcode env fuel c.nextPc c.trans = .error (.abort reason) →
      RunStep ⟨.head, h, c⟩ ⟨.aborted, h, c⟩
  | chain {h h' : HostState} {c : Globals} {loc : CacheLoc} {code : CodeAt} :
      chain env loc h c.code = some (h', code) →
      RunStep ⟨.translated loc, h, c⟩ ⟨.chained loc, h', { c with code := code }⟩
  | chainAbort {h : HostState} {c : Globals} {loc : CacheLoc} : chain env loc h c.code = none →
      RunStep ⟨.translated loc, h, c⟩ ⟨.aborted, h, c⟩
  | enter {h h₁ h' : HostState} {c : Globals} {loc : CacheLoc} {flags : X86Flags} :
      CalledWith loc h h₁ → runCode FeInstr.exec loadContext h₁ = some h' →
      h'.flags = some flags → Cond.z.holds flags = false →
      RunStep ⟨.chained loc, h, c⟩
        ⟨.running (h'.reg .ax), { h' with stack := resume :: h'.stack }, { c with caller := h₁ }⟩
  | exec {rip : BitVec 64} {h : HostState} {c : Globals} {m : Cpu} :
      env.enc.step c.code ⟨rip, h⟩ = some m →
      RunStep ⟨.running rip, h, c⟩ ⟨.running m.rip, m.host, c⟩
  | saveContext {rip : BitVec 64} {h h' : HostState} {c : Globals} :
      c.code rip = some (.call env.runtime.saveContext) →
      runCode FeInstr.exec saveContext h = some h' →
      RunStep ⟨.running rip, h, c⟩
        ⟨.running (rip + BitVec.ofNat 64 (env.enc.size (.call env.runtime.saveContext))), h', c⟩
  | emulateEcall {rip : BitVec 64} {h h' : HostState} {c : Globals} {ended : Bool} :
      c.code rip = some (.call env.runtime.emulateEcall) →
      h.reg .si = env.runtime.gpRegFile → EmulatesEcall sys h h' ended →
      RunStep ⟨.running rip, h, c⟩
        ⟨.running (rip + BitVec.ofNat 64 (env.enc.size (.call env.runtime.emulateEcall))), h',
          { c with finalize := c.finalize || ended }⟩
  | emulateAbort {rip : BitVec 64} {h : HostState} {c : Globals} :
      c.code rip = some (.call env.runtime.emulateEcall) →
      h.reg .si = env.runtime.gpRegFile → (∀ h' ended, ¬ EmulatesEcall sys h h' ended) →
      RunStep ⟨.running rip, h, c⟩ ⟨.aborted, h, c⟩
  | loadContext {rip : BitVec 64} {h h' : HostState} {c : Globals} {flags : X86Flags} :
      c.code rip = some (.call env.runtime.loadExecuteSaveContext) →
      runCode FeInstr.exec loadContext h = some h' →
      h'.flags = some flags → Cond.z.holds flags = true →
      RunStep ⟨.running rip, h, c⟩
        ⟨.running (rip + BitVec.ofNat 64
          (env.enc.size (.call env.runtime.loadExecuteSaveContext))), h', c⟩
  | invalidErrorHandler {rip : BitVec 64} {h : HostState} {c : Globals} :
      c.code rip = some (.call env.runtime.invalidErrorHandler) →
      RunStep ⟨.running rip, h, c⟩ ⟨.aborted, h, c⟩
  | ret {rip : BitVec 64} {h h' : HostState} {c : Globals} {stack : List (BitVec 64)} :
      c.code rip = some .ret → h.stack = resume :: stack →
      runCode FeInstr.exec saveContext { h with stack := stack } = some h' →
      env.flags.ndebug = true ∨ h'.cell (.gp x0) = 0#64 →
      RunStep ⟨.running rip, h, c⟩ ⟨.head, h', { c with nextPc := h'.cell (.gp pc) }⟩
  | illegalZero {rip : BitVec 64} {h h' : HostState} {c : Globals} {stack : List (BitVec 64)} :
      c.code rip = some .ret → h.stack = resume :: stack →
      runCode FeInstr.exec saveContext { h with stack := stack } = some h' →
      ¬ (env.flags.ndebug = true ∨ h'.cell (.gp x0) = 0#64) →
      RunStep ⟨.running rip, h, c⟩ ⟨.done, h', c⟩

/-- The states of a run. -/
abbrev RunReaches : RunState → RunState → Prop := Relation.ReflTransGen (RunStep env sys resume)

end

/-! ## Runs that are computed -/

section

variable (env : Env) (answer : HostState → HostState × Bool) (resume : BitVec 64) (fuel : Nat)

/-- The step of a run at a call in emitted code, with `answer` for `emulate_ecall`. -/
def callNext (rip fn : BitVec 64) (h : HostState) (c : Globals) : Option RunState :=
  let next := rip + BitVec.ofNat 64 (env.enc.size (.call fn))
  if fn = env.runtime.saveContext then do
    let h' ← runCode FeInstr.exec saveContext h
    return ⟨.running next, h', c⟩
  else if fn = env.runtime.emulateEcall then
    if h.reg .si = env.runtime.gpRegFile then
      some ⟨.running next, (answer h).1, { c with finalize := c.finalize || (answer h).2 }⟩
    else none
  else if fn = env.runtime.loadExecuteSaveContext then do
    let h' ← runCode FeInstr.exec loadContext h
    let flags ← h'.flags
    if Cond.z.holds flags then return ⟨.running next, h', c⟩ else none
  else none

/-- The step of a run at the `RET` of a block. -/
def retNext (h : HostState) (c : Globals) : Option RunState :=
  match h.stack with
  | [] => none
  | top :: stack =>
      if top = resume then do
        let h' ← runCode FeInstr.exec saveContext { h with stack := stack }
        -- a debug build ends the loop where the slot of `x0` is not zero
        if env.flags.ndebug = true ∨ h'.cell (.gp x0) = 0#64 then
          return ⟨.head, h', { c with nextPc := h'.cell (.gp pc) }⟩
        else return ⟨.done, h', c⟩
      else none

/-- A step of a run that can be computed, none where the run ends or the translator stops it. -/
def runNext (s : RunState) : Option RunState :=
  let h := s.host
  let c := s.globals
  match s.phase with
  | .head =>
      -- `finalize` is tested at the head of the loop only
      if c.finalize = true then some ⟨.done, h, c⟩
      else match transcode env fuel c.nextPc c.trans with
        | .ok (loc, t) =>
            some ⟨.translated loc, h, { c with trans := t, code := placeNew env c.trans t c.code }⟩
        | .error _ => none
  | .translated loc =>
      (chain env loc h c.code).map fun r => ⟨.chained loc, r.1, { c with code := r.2 }⟩
  | .chained loc => do
      let h₁ := (h.setReg .di loc).setReg .si 1#64
      let h' ← runCode FeInstr.exec loadContext h₁
      let flags ← h'.flags
      if Cond.z.holds flags = false then
        return ⟨.running (h'.reg .ax), { h' with stack := resume :: h'.stack },
          { c with caller := h₁ }⟩
      else none
  | .running rip =>
      match c.code rip with
      | some (.call fn) => callNext env answer rip fn h c
      | some .ret => retNext env resume h c
      | _ => (env.enc.step c.code ⟨rip, h⟩).map fun m => ⟨.running m.rip, m.host, c⟩
  | .done | .aborted => none

/-- The state after at most `n` steps. -/
def runFor : Nat → RunState → RunState
  | 0, s => s
  | n + 1, s =>
      match runNext env answer resume fuel s with
      | some s' => runFor n s'
      | none => s

end

section

variable {env : Env} {sys : Syscalls} {answer : HostState → HostState × Bool}
  {resume rip : BitVec 64} {fuel : Nat} {h : HostState} {c : Globals} {s s' : RunState}

theorem callNext_sound (hanswer : ∀ h, EmulatesEcall sys h (answer h).1 (answer h).2)
    {fn : BitVec 64} (hcode : c.code rip = some (.call fn))
    (hnext : callNext env answer rip fn h c = some s') :
    RunStep env sys resume ⟨.running rip, h, c⟩ s' := by
  unfold callNext at hnext
  split at hnext
  · rename_i heq
    subst heq
    obtain ⟨h', hrun, hs⟩ := Option.bind_eq_some_iff.1 hnext
    obtain rfl := Option.some.inj hs
    exact .saveContext hcode hrun
  · split at hnext
    · rename_i heq
      subst heq
      split at hnext
      · rename_i hsi
        obtain rfl := Option.some.inj hnext
        exact .emulateEcall hcode hsi (hanswer h)
      · cases hnext
    · split at hnext
      · rename_i heq
        subst heq
        obtain ⟨h', hrun, hs⟩ := Option.bind_eq_some_iff.1 hnext
        obtain ⟨flags, hflags, hs⟩ := Option.bind_eq_some_iff.1 hs
        split at hs
        · rename_i hzero
          obtain rfl := Option.some.inj hs
          exact .loadContext hcode hrun hflags hzero
        · cases hs
      · cases hnext

theorem retNext_sound (hcode : c.code rip = some .ret)
    (hnext : retNext env resume h c = some s') :
    RunStep env sys resume ⟨.running rip, h, c⟩ s' := by
  unfold retNext at hnext
  split at hnext
  · cases hnext
  · rename_i top stack hstack
    split at hnext
    · rename_i heq
      subst heq
      obtain ⟨h', hrun, hs⟩ := Option.bind_eq_some_iff.1 hnext
      split at hs
      · rename_i hzero
        obtain rfl := Option.some.inj hs
        exact .ret hcode hstack hrun hzero
      · rename_i hzero
        obtain rfl := Option.some.inj hs
        exact .illegalZero hcode hstack hrun hzero
    · cases hnext

/-- A computed step is a step, where `answer` gives a result of every system call. -/
theorem runNext_sound (hanswer : ∀ h, EmulatesEcall sys h (answer h).1 (answer h).2)
    (hnext : runNext env answer resume fuel s = some s') : RunStep env sys resume s s' := by
  obtain ⟨phase, h, c⟩ := s
  cases phase with
  | head =>
      unfold runNext at hnext
      dsimp only at hnext
      split at hnext
      · rename_i hfinal
        obtain rfl := Option.some.inj hnext
        exact .finish hfinal
      · rename_i hrunning
        split at hnext
        · rename_i loc t hok
          obtain rfl := Option.some.inj hnext
          exact .translate (Bool.eq_false_iff.2 hrunning) hok
        · cases hnext
  | translated loc =>
      obtain ⟨⟨h', code⟩, hchain, rfl⟩ := Option.map_eq_some_iff.1 hnext
      exact .chain hchain
  | chained loc =>
      unfold runNext at hnext
      dsimp only at hnext
      obtain ⟨h', hrun, hs⟩ := Option.bind_eq_some_iff.1 hnext
      obtain ⟨flags, hflags, hs⟩ := Option.bind_eq_some_iff.1 hs
      split at hs
      · rename_i hzero
        obtain rfl := Option.some.inj hs
        have hcall : CalledWith loc h ((h.setReg .di loc).setReg .si 1#64) := by
          refine ⟨?_, ?_, rfl, rfl, rfl⟩
          · exact (HostState.reg_setReg_of_ne _ (by simp) _).trans (h.reg_setReg_self _ _)
          · exact congrArg (·.setWidth 32) (HostState.reg_setReg_self _ .si 1#64)
        exact .enter hcall hrun hflags hzero
      · cases hs
  | running rip =>
      cases hcode : c.code rip with
      | none => simp [runNext, hcode, Encoder.step] at hnext
      | some i =>
          -- a call, a return, or an instruction of the machine
          cases i with
          | call fn =>
              simp only [runNext, hcode] at hnext
              exact callNext_sound hanswer hcode hnext
          | ret =>
              simp only [runNext, hcode] at hnext
              exact retNext_sound hcode hnext
          | _ =>
              simp only [runNext, hcode] at hnext
              obtain ⟨m, hexec, rfl⟩ := Option.map_eq_some_iff.1 hnext
              exact .exec hexec
  | done | aborted => cases hnext

/-- What is computed is a run. -/
theorem runFor_sound (hanswer : ∀ h, EmulatesEcall sys h (answer h).1 (answer h).2) (n : Nat)
    (s : RunState) : RunReaches env sys resume s (runFor env answer resume fuel n s) := by
  induction n generalizing s with
  | zero => exact .refl
  | succ n ih =>
      unfold runFor
      split
      · rename_i s' hnext
        exact .head (runNext_sound hanswer hnext) (ih s')
      · exact .refl

end

/-! ## Functions of the translator -/

/-- The functions that emitted code calls lie at different addresses. -/
def Runtime.Distinct (r : Runtime) : Prop :=
  [r.saveContext, r.emulateEcall, r.loadExecuteSaveContext, r.invalidErrorHandler].Nodup

section

variable {r : Runtime}

theorem Runtime.Distinct.save (h : r.Distinct) : r.saveContext ≠ r.loadExecuteSaveContext ∧
    r.saveContext ≠ r.emulateEcall ∧ r.saveContext ≠ r.invalidErrorHandler := by
  unfold Runtime.Distinct at h
  simp only [List.nodup_cons, List.mem_cons, List.not_mem_nil, or_false, not_or] at h
  exact ⟨h.1.2.1, h.1.1, h.1.2.2⟩

theorem Runtime.Distinct.emulate (h : r.Distinct) : r.emulateEcall ≠ r.saveContext ∧
    r.emulateEcall ≠ r.loadExecuteSaveContext ∧ r.emulateEcall ≠ r.invalidErrorHandler := by
  unfold Runtime.Distinct at h
  simp only [List.nodup_cons, List.mem_cons, List.not_mem_nil, or_false, not_or] at h
  exact ⟨Ne.symm h.1.1, h.2.1.1, h.2.1.2⟩

theorem Runtime.Distinct.load (h : r.Distinct) : r.loadExecuteSaveContext ≠ r.saveContext ∧
    r.loadExecuteSaveContext ≠ r.emulateEcall ∧
      r.loadExecuteSaveContext ≠ r.invalidErrorHandler := by
  unfold Runtime.Distinct at h
  simp only [List.nodup_cons, List.mem_cons, List.not_mem_nil, or_false, not_or] at h
  exact ⟨Ne.symm h.1.2.1, Ne.symm h.2.1.1, h.2.2.1⟩

end

/-! ## Steps in emitted code -/

section

variable {env : Env} {sys : Syscalls} {resume rip : BitVec 64} {h h' : HostState} {c : Globals}
  {s : RunState} {m : Cpu}

theorem step_call {enc : Encoder} {code : CodeAt} {fn : BitVec 64}
    (hcode : code rip = some (.call fn)) : enc.step code ⟨rip, h⟩ = none := by
  unfold Encoder.step
  rw [hcode]
  rfl

theorem step_ret {enc : Encoder} {code : CodeAt} (hcode : code rip = some .ret) :
    enc.step code ⟨rip, h⟩ = none := by
  unfold Encoder.step
  rw [hcode]
  rfl

/-- Where the machine steps, the run does the same. -/
theorem RunStep.of_exec (hexec : env.enc.step c.code ⟨rip, h⟩ = some m)
    (hstep : RunStep env sys resume ⟨.running rip, h, c⟩ s) :
    s = ⟨.running m.rip, m.host, c⟩ := by
  cases hstep with
  | exec hexec' =>
      obtain rfl := Option.some.inj (hexec.symm.trans hexec')
      rfl
  | saveContext hcode | emulateEcall hcode | emulateAbort hcode | loadContext hcode
  | invalidErrorHandler hcode =>
      rw [step_call hcode] at hexec
      cases hexec
  | ret hcode | illegalZero hcode =>
      rw [step_ret hcode] at hexec
      cases hexec

/-- What may follow a call in emitted code. -/
theorem RunStep.of_call {fn : BitVec 64} (hcode : c.code rip = some (.call fn))
    (hstep : RunStep env sys resume ⟨.running rip, h, c⟩ s) :
    (fn = env.runtime.saveContext ∧ ∃ h', runCode FeInstr.exec Translate.saveContext h = some h' ∧
      s = ⟨.running (rip + BitVec.ofNat 64 (env.enc.size (.call fn))), h', c⟩) ∨
    (fn = env.runtime.emulateEcall ∧ (s = ⟨.aborted, h, c⟩ ∨
      ∃ h' ended, EmulatesEcall sys h h' ended ∧
        s = ⟨.running (rip + BitVec.ofNat 64 (env.enc.size (.call fn))), h',
          { c with finalize := c.finalize || ended }⟩)) ∨
    (fn = env.runtime.loadExecuteSaveContext ∧
      ∃ h', runCode FeInstr.exec Translate.loadContext h = some h' ∧
        s = ⟨.running (rip + BitVec.ofNat 64 (env.enc.size (.call fn))), h', c⟩) ∨
    fn = env.runtime.invalidErrorHandler := by
  have hfn : ∀ {fn'}, c.code rip = some (.call fn') → fn = fn' := fun hcode' =>
    FeInstr.call.inj (Option.some.inj (hcode.symm.trans hcode'))
  -- the function that is called decides the step
  cases hstep with
  | exec hexec =>
      rw [step_call hcode] at hexec
      cases hexec
  | saveContext hcode' hrun =>
      obtain rfl := hfn hcode'
      exact .inl ⟨rfl, _, hrun, rfl⟩
  | emulateEcall hcode' _ hcall =>
      obtain rfl := hfn hcode'
      exact .inr (.inl ⟨rfl, .inr ⟨_, _, hcall, rfl⟩⟩)
  | emulateAbort hcode' => exact .inr (.inl ⟨hfn hcode', .inl rfl⟩)
  | loadContext hcode' hrun =>
      obtain rfl := hfn hcode'
      exact .inr (.inr (.inl ⟨rfl, _, hrun, rfl⟩))
  | invalidErrorHandler hcode' => exact .inr (.inr (.inr (hfn hcode')))
  | ret hcode' | illegalZero hcode' => cases hcode.symm.trans hcode'

/-- A return of a block saves the context and leads to the loop. -/
theorem RunStep.of_ret {stack : List (BitVec 64)} (hcode : c.code rip = some .ret)
    (hstack : h.stack = resume :: stack)
    (hrun : runCode FeInstr.exec Translate.saveContext { h with stack := stack } = some h')
    (hstep : RunStep env sys resume ⟨.running rip, h, c⟩ s) :
    (s = ⟨.head, h', { c with nextPc := h'.cell (.gp pc) }⟩) ∨
      (¬ (env.flags.ndebug = true ∨ h'.cell (.gp x0) = 0#64) ∧ s = ⟨.done, h', c⟩) := by
  cases hstep with
  | exec hexec =>
      rw [step_ret hcode] at hexec
      cases hexec
  | saveContext hcode' | emulateEcall hcode' | emulateAbort hcode' | loadContext hcode'
  | invalidErrorHandler hcode' => cases hcode.symm.trans hcode'
  | ret _ hstack' hrun' =>
      obtain rfl := (List.cons.inj (hstack.symm.trans hstack')).2
      obtain rfl := Option.some.inj (hrun.symm.trans hrun')
      exact .inl rfl
  | illegalZero _ hstack' hrun' hzero =>
      obtain rfl := (List.cons.inj (hstack.symm.trans hstack')).2
      obtain rfl := Option.some.inj (hrun.symm.trans hrun')
      exact .inr ⟨hzero, rfl⟩

end

end RiaJit.Translate
