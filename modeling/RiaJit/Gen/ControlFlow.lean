import RiaJit.Gen.Arithmetic
import RiaJit.Gen.Emit

/-!
# Control flow and the return address stack

`translate_controlflow.c`, `translate_pseudo.c`, `translate_ECALL` and
`return_stack.c`. The exits of a block either jump to code that is in the cache or
store the next guest address in the `pc` slot and leave a note for `chain`.
-/

set_option autoImplicit false

namespace RiaJit.Translate

open EmitLogic X86

variable (env : Env) (instr : RiscInstr)

/-! ## Exits -/

/-- A constant is stored as the next guest address. -/
def setPc (target : RiscAddr) : Gen Unit :=
  match gpMap pc with
  | some mapped => feEnc64 (.mov64ri mapped target)
  | none => feEnc64 (.mov64miCell (.gp pc) target)

/-- `chain_end` is set to the address in `AX`, `chain_type` to the given jump. -/
def noteChain (cond : Option Cond) : Gen Unit := do
  feEnc64 (.mov64mrCell .chainEnd .ax)
  feEnc64 (.mov32miCell .chainType (env.enc.jumpMnem cond))

/-- `chain_end` is set to the place where it is set, to be replaced by a jump. -/
def chainHere : Gen Unit := do
  feEnc64 (.leaRip .ax)
  noteChain env none

/-- `chain_end` is set to the address of a conditional jump. -/
def chainAt (jump : BitVec 64) (cond : Cond) : Gen Unit := do
  feEnc64 (.mov64ri .ax jump)
  noteChain env (some cond)

/-- `cache_loc` where a direct jump is possible: chaining is on and the target has
finished code. -/
def lookupFinished (target : RiscAddr) : Emit (Option CacheLoc) :=
  if env.flags.translateOptChain then do
    let cacheLoc ← Emit.lookupCacheEntry target
    return if cacheLoc = unseenCode ∨ cacheLoc = translationStarted then none else some cacheLoc
  else return none

/-! ## The return stack -/

/-- The instructions of `rs_emit_push`. -/
def pushEntry (cacheLoc : CacheLoc) (saveRax : Bool) : Gen Unit := do
  onlyIf saveRax (feEnc64 (.push .ax))
  feEnc64 (.mov32rmCell .ax .rsFront)
  feEnc64 (.mov64rmCell .dx .rStack)
  feEnc64 (.mov64ri .cx (instr.addr + 4#64))
  feEnc64 (.aluri .add .s32 .ax 0x10#64)
  feEnc64 (.aluri .and .s32 .ax 0x3f0#64)
  feEnc64 (.mov32mrCell .rsFront .ax)
  feEnc64 (.alurr .add .s64 .ax .dx)
  feEnc64 (.mov64ri .dx cacheLoc)
  feEnc64 (.movmr .m64 (memAt .ax 0#64) .cx)
  feEnc64 (.movmr .m64 (memAt .ax 8#64) .dx)
  onlyIf saveRax (feEnc64 (.pop .ax))

/-- `rs_emit_push`. -/
def rsEmitPush (saveRax : Bool) : Emit Unit := do
  Emit.lift invalidateAllReplacements
  let cacheLoc ← Emit.lookupCacheEntry (instr.addr + 4#64)
  Emit.onlyIf (cacheLoc ≠ translationStarted) (Emit.lift (pushEntry instr cacheLoc saveRax))

/-- The comparison of `rs_emit_pop_RAX`: the front entry with the target in `AX`. -/
def compareFront : Gen Unit := do
  feEnc64 (.mov32rmCell .dx .rsFront)
  feEnc64 (.mov64rmCell .cx .rStack)
  feEnc64 (.alurr .add .s64 .dx .cx)
  feEnc64 (.movrm .m64 .cx (memAt .dx 0#64))
  feEnc64 (.cmp64rr .ax .cx)

/-- The front entry is popped, its code address moves to `CX`. -/
def popFront : Gen Unit := do
  feEnc64 (.mov32rmCell .cx .rsFront)
  feEnc64 (.aluri .add .s64 .cx 1023#64)
  feEnc64 (.aluri .and .s64 .cx 0x3f0#64)
  feEnc64 (.mov64mrCell .rsFront .cx)
  feEnc64 (.movrm .m64 .cx (memAt .dx 8#64))

/-- The end of `rs_emit_pop_RAX` where a hit jumps. -/
def popJump (nullJmpMiss : Nat) : Emit Unit := do
  Emit.lift (feEnc64 (.jmpr .cx))
  Emit.replaceJumpHere env nullJmpMiss (some .nz) false

/-- The end of `rs_emit_pop_RAX` where the jump target is saved, or null on a miss. -/
def popSave (nullJmpMiss : Nat) : Emit Unit := do
  Emit.lift (feEnc64 (.push .cx))
  let noJumpHit ← Emit.encDummy env none false
  Emit.replaceJumpHere env nullJmpMiss (some .nz) false
  Emit.lift (feEnc64 (.mov64ri .cx 0#64))
  Emit.lift (feEnc64 (.push .cx))
  Emit.replaceJumpHere env noJumpHit none false

/-- `rs_emit_pop_RAX`. -/
def rsEmitPopRAX (jumpOrPush : Bool) : Emit Unit := do
  Emit.lift invalidateAllReplacements
  Emit.lift compareFront
  let nullJmpMiss ← Emit.encDummy env (some .nz) false
  Emit.lift popFront
  if jumpOrPush then popJump env nullJmpMiss else popSave env nullJmpMiss

/-- `rs_jump_stack`. -/
def rsJumpStack : Emit Unit := do
  Emit.lift invalidateAllReplacements
  Emit.lift (feEnc64 (.pop .cx))
  Emit.lift (feEnc64 (.cmp64ri .cx 0#64))
  let noJump ← Emit.encDummy env (some .z) false
  Emit.lift (feEnc64 (.jmpr .cx))
  Emit.replaceJumpHere env noJump (some .z) false

/-! ## Jumps -/

/-- Whether a register is one that calls link with. -/
def isLink (reg : Nat) : Prop := reg = x1 ∨ reg = x5

instance (reg : Nat) : Decidable (isLink reg) := inferInstanceAs (Decidable (_ ∨ _))

/-- The `AUIPC` that `translate_JAL` translates to set `rd`. -/
def linkInstr : RiscInstr := ⟨instr.addr, .auipc, .immediate, x0, x0, instr.regDest, 4#64⟩

/-- The exit of `translate_JAL`. -/
def jalExit (target : RiscAddr) : Option CacheLoc → Emit Unit
  | some cacheLoc => Emit.encJump env none false cacheLoc
  | none => Emit.lift do
      onlyIf env.flags.translateOptChain (chainHere env)
      setPc target

/-- `translate_JAL`. -/
def translateJAL : Emit Unit := do
  Emit.lift (recordGpProfiler env.flags instr.regDest)
  Emit.onlyIf (env.flags.translateOptRas ∧ isLink instr.regDest) (rsEmitPush instr false)
  Emit.lift (translateAUIPC env.flags (linkInstr instr))
  Emit.lift invalidateAllReplacements
  let cacheLoc ← lookupFinished env (instr.addr + instr.imm)
  jalExit env (instr.addr + instr.imm) cacheLoc

/-- The value of `rs1` is moved to `AX`. -/
def moveRs1ToAx : Gen Unit :=
  match gpMap instr.regSrc1 with
  | some mapped => feEnc64 (.movrr .s64 .ax mapped)
  | none => feEnc64 (.mov64rmCell .ax (.gp instr.regSrc1))

/-- Step 1 of `translate_JALR`: the target in `AX`. -/
def jalrTarget : Gen Unit := do
  invalidateAllReplacements
  moveRs1ToAx instr
  feEnc64 (.aluri .add .s64 .ax instr.imm)
  feEnc64 (.aluri .and .s64 .ax (-2#64))

/-- Step 2 of `translate_JALR`. -/
def jalrLink : Gen Unit :=
  onlyIf (instr.regDest ≠ x0)
    (match gpMap instr.regDest with
    | some mapped => feEnc64 (.mov64ri mapped (instr.addr + 4#64))
    | none => feEnc64 (.mov64miCell (.gp instr.regDest) (instr.addr + 4#64)))

/-- Pop and push of step 3 of `translate_JALR`. -/
def popAndPush : Emit Unit := do
  rsEmitPopRAX env false
  rsEmitPush instr true
  rsJumpStack env

/-- Step 3 of `translate_JALR`. -/
def jalrReturnStack : Emit Unit :=
  if isLink instr.regDest then
    if isLink instr.regSrc1 then
      if instr.regDest = instr.regSrc1 then rsEmitPush instr true
      else popAndPush env instr
    else rsEmitPush instr true
  else if isLink instr.regSrc1 then rsEmitPopRAX env true
  else pure ()

/-- The target that step 4 of `translate_JALR` computes from the word before the
instruction. -/
def jalrStaticTarget : Emit RiscAddr := fun s =>
  match Parser.parseInstruction env.flags env.mem (.ofAddr (instr.addr - 4#64)) with
  | .error reason => .error (.abort reason)
  | .ok (_, before) => .ok (before.addr + before.imm + instr.imm, s)

/-- The direct jump of `translate_JALR`, or the note for `chain`. -/
def jalrDirect : Option CacheLoc → Emit Unit
  | some cacheLoc => Emit.lift do
      feEnc64 (.mov64ri .cx cacheLoc)
      feEnc64 (.jmpr .cx)
  | none => Emit.lift (chainHere env)

/-- Step 4 of `translate_JALR` for a marked instruction. -/
def jalrChain : Emit Unit := do
  let target ← jalrStaticTarget env instr
  let cacheLoc ← lookupFinished env target
  jalrDirect env cacheLoc

/-- Step 4 of `translate_JALR`. -/
def jalrStep4 : Emit Unit :=
  if instr.regSrc2 = 1 ∧ env.flags.translateOptChain then jalrChain env instr
  else Emit.lift (onlyIf env.flags.translateOptChain (feEnc64 (.mov64miCell .chainEnd 0#64)))

/-- Step 5 of `translate_JALR`. -/
def setPcFromAx : Gen Unit :=
  match gpMap pc with
  | some mapped => feEnc64 (.movrr .s64 mapped .ax)
  | none => feEnc64 (.mov64mrCell (.gp pc) .ax)

/-- `translate_JALR`. -/
def translateJALR : Emit Unit := do
  Emit.lift (recordGpProfiler env.flags instr.regSrc1)
  Emit.lift (recordGpProfiler env.flags instr.regDest)
  Emit.lift (jalrTarget instr)
  Emit.lift (jalrLink instr)
  Emit.onlyIf env.flags.translateOptRas (jalrReturnStack env instr)
  jalrStep4 env instr
  Emit.lift setPcFromAx

/-! ## Branches -/

/-- The comparison of `rs1` with `rs2`, a test where `rs2` is `x0`. -/
def compareWithRs2 (regSrc1 : FeReg) : Gen Unit :=
  if instr.regSrc2 = x0 then feEnc64 (.test64rr regSrc1 regSrc1)
  else do
    let regSrc2 ← getRs2 env.flags instr
    feEnc64 (.cmp64rr regSrc1 regSrc2)

/-- `translate_controlflow_cmp_rs1_rs2`. -/
def cmpRs1Rs2 : Gen Unit := do
  recordGpProfiler env.flags instr.regSrc1
  recordGpProfiler env.flags instr.regSrc2
  let regSrc1 ← getRs1 env.flags instr
  compareWithRs2 env instr regSrc1
  invalidateAllReplacements

/-- The part of `translate_controlflow_set_pc2` for a taken branch. -/
def takenExit (target : RiscAddr) : Option CacheLoc → Emit Unit
  | some cacheLoc => Emit.encJump env none false cacheLoc
  | none => Emit.lift do
      onlyIf env.flags.translateOptChain (chainHere env)
      setPc target

/-- The part of `translate_controlflow_set_pc2` for a branch that is not taken. -/
def notTakenExit (target : RiscAddr) (noJmpLoc : Nat) (jmpMnem : Cond) :
    Option CacheLoc → Emit Unit
  | some cacheLoc => Emit.replaceJump env noJmpLoc (some jmpMnem) true cacheLoc
  | none => do
      Emit.replaceJumpHere env noJmpLoc (some jmpMnem) true
      let s ← get
      Emit.lift (onlyIf env.flags.translateOptChain
        (chainAt env (Emit.addressOf env s noJmpLoc) jmpMnem))
      Emit.lift (setPc target)

/-- `translate_controlflow_set_pc2`. -/
def setPc2 (noJmpLoc : Nat) (jmpMnem : Cond) : Emit Unit := do
  let taken ← lookupFinished env (instr.addr + instr.imm)
  takenExit env (instr.addr + instr.imm) taken
  let endJmpLoc ← Emit.encDummy env none false
  let notTaken ← lookupFinished env (instr.addr + 4#64)
  notTakenExit env (instr.addr + 4#64) noJmpLoc jmpMnem notTaken
  Emit.replaceJumpHere env endJmpLoc none false

/-- A conditional branch; `jmpMnem` is the jump that skips the taken part. -/
def translateBranch (jmpMnem : Cond) : Emit Unit := do
  Emit.lift (cmpRs1Rs2 env instr)
  let jumpB ← Emit.encDummy env (some jmpMnem) true
  setPc2 env instr jumpB jmpMnem

/-- `translate_BEQ`. -/
def translateBEQ : Emit Unit := translateBranch env instr .nz

/-- `translate_BNE`. -/
def translateBNE : Emit Unit := translateBranch env instr .z

/-- `translate_BLT`. -/
def translateBLT : Emit Unit := translateBranch env instr .ge

/-- `translate_BLTU`. -/
def translateBLTU : Emit Unit := translateBranch env instr .nc

/-- `translate_BGE`. -/
def translateBGE : Emit Unit := translateBranch env instr .l

/-- `translate_BGEU`. -/
def translateBGEU : Emit Unit := translateBranch env instr .c

/-! ## Other instructions -/

/-- `translate_INVALID`. -/
def translateINVALID : Gen Unit := do
  invalidateReplacement 1
  feEnc64 (.mov64ri .di (BitVec.ofNat 64 instr.regDest))
  feEnc64 (.mov64ri .si instr.imm)
  feEnc64 (.mov64ri .dx instr.addr)
  feEnc64 (.aluri .and .s64 .sp 0xfffffffffffffff0#64)
  feEnc64 (.aluri .sub .s64 .sp 8#64)
  feEnc64 (.call env.runtime.invalidErrorHandler)

/-- `translate_PC_NEXT_INST`. -/
def translatePC_NEXT_INST (addr : RiscAddr) : Gen Unit := do
  invalidateAllReplacements
  onlyIf env.flags.translateOptChain (chainHere env)
  feEnc64 (.mov64ri .ax addr)
  feEnc64 (.mov64mrCell (.gp pc) .ax)

/-- `translate_ECALL`. -/
def translateECALL : Gen Unit := do
  invalidateAllReplacements
  feEnc64 (.call env.runtime.saveContext)
  feEnc64 (.mov64ri .di instr.addr)
  feEnc64 (.mov64ri .si env.runtime.gpRegFile)
  feEnc64 (.call env.runtime.emulateEcall)
  feEnc64 (.alurr .xor .s32 .si .si)
  feEnc64 (.call env.runtime.loadExecuteSaveContext)

end RiaJit.Translate
