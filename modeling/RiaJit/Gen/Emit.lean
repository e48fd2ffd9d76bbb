import RiaJit.Cache.CodeCache
import RiaJit.Gen.RegisterInfo
import RiaJit.Parser.Parser
import RiaJit.X86.Code

/-!
# Emission of one guest instruction

The state of the translator while it emits code for one instruction of a block, and
the steps that need more of it than the allocator does: lookups in the code cache,
jumps, whose form depends on where they stand, and the jumps that are encoded twice,
first as a dummy and then in place with their target.
-/

set_option autoImplicit false

namespace RiaJit.Translate

open EmitLogic X86

/-- Why the translator stops: the run ends, or the model's fuel does. -/
inductive Stop where
  | abort (reason : Abort)
  | outOfFuel
  deriving DecidableEq, Repr

/-- The functions and tables of the translator that emitted code refers to. -/
structure Runtime where
  saveContext : BitVec 64
  loadExecuteSaveContext : BitVec 64
  emulateEcall : BitVec 64
  invalidErrorHandler : BitVec 64
  gpRegFile : BitVec 64

/-- What is fixed while code is translated. The emitters of the extensions and the
pattern matcher are parameters: `others` emits the code of an instruction that is
not modelled, `optimizePatterns` rewrites a parsed block. -/
structure Env where
  flags : Flags
  mem : CodeMem
  enc : Encoder
  runtime : Runtime
  others : RiscInstr → Gen Unit
  optimizePatterns : List RiscInstr → List RiscInstr

/-- The translator of a program that uses no extensions, without pattern matching. -/
def Env.plain (flags : Flags) (mem : CodeMem) : Env :=
  ⟨flags, mem, .uniform, ⟨0#64, 0#64, 0#64, 0#64, 0#64⟩, fun _ => pure (), id⟩

/-- The emission of one instruction: where its code starts, the code so far, and the
globals that are read and changed. `garbled` is set where an instruction is encoded
over one of another length, after which `code` does not describe the memory. -/
structure EmitState where
  start : BitVec 64
  code : List FeInstr
  gen : GenState
  cache : CodeCache
  garbled : Bool

/-- A step of the translator within a block. -/
abbrev Emit := StateT EmitState (Except Stop)

namespace Emit

variable (env : Env)

/-- `current`. -/
def current (s : EmitState) : BitVec 64 := env.enc.after s.start s.code

/-- A step that only appends to the block. -/
def lift {α : Type} (g : Gen α) : Emit α := fun s =>
  .ok ((g s.gen).1, { s with code := s.code ++ (g s.gen).2.1, gen := (g s.gen).2.2 })

/-- A step taken only under a condition. -/
def onlyIf (c : Prop) [Decidable c] (g : Emit Unit) : Emit Unit := if c then g else pure ()

/-- `lookup_cache_entry`. -/
def lookupCacheEntry (riscAddr : RiscAddr) : Emit CacheLoc := fun s =>
  match s.cache.lookupCacheEntry riscAddr with
  | none => .error .outOfFuel
  | some (cacheLoc, cache) => .ok (cacheLoc, { s with cache := cache })

/-- `critical_not_yet_implemented` in a function without a result. -/
def critical : Emit Unit := fun s =>
  match criticalNotYetImplemented env.flags () with
  | .error reason => .error (.abort reason)
  | .ok _ => .ok ((), s)

/-- `err` is set. -/
def fail : Emit Unit := lift (Gen.modify fun s => { s with err := true })

/-- `err |= fe_enc64(&current, mnem, target)` for a jump; `jmpl` is `FE_JMPL`. -/
def encJump (cond : Option Cond) (jmpl : Bool) (target : BitVec 64) : Emit Unit := fun s =>
  match env.enc.jumpForm (current env s) cond jmpl target with
  | some i => .ok ((), { s with code := s.code ++ [i] })
  | none => fail s

/-- A dummy jump, to be replaced; the result is its place in the code. -/
def encDummy (cond : Option Cond) (jmpl : Bool) : Emit Nat := fun s => do
  let (_, s') ← encJump env cond jmpl (current env s) s
  return (s.code.length, s')

/-- The address of the instruction at a place in the code. -/
def addressOf (s : EmitState) (slot : Nat) : BitVec 64 :=
  env.enc.after s.start (s.code.take slot)

/-- `i` is written over the instruction at `slot`. -/
def overwrite (slot : Nat) (i : FeInstr) : Emit Unit := fun s =>
  if s.code[slot]?.map env.enc.size = some (env.enc.size i) then
    .ok ((), { s with code := s.code.set slot i })
  else .ok ((), { s with garbled := true })

/-- A dummy jump is encoded again in place, with its target. -/
def replaceJump (slot : Nat) (cond : Option Cond) (jmpl : Bool) (target : BitVec 64) :
    Emit Unit := fun s =>
  match env.enc.jumpForm (addressOf env s slot) cond jmpl target with
  | some i => overwrite env slot i s
  | none => fail s

/-- A dummy jump is encoded again in place, to `current`. -/
def replaceJumpHere (slot : Nat) (cond : Option Cond) (jmpl : Bool) : Emit Unit := fun s =>
  replaceJump env slot cond jmpl (current env s) s

end Emit

end RiaJit.Translate
