import RiaJit.Gen.ControlFlow

/-!
# Translation of blocks

`dispatch.c` and `translate.c`. Parsing a block recurses into the translation of the
jump targets and return addresses it meets, so blocks are emitted innermost first,
one after the other in the instruction memory.
-/

set_option autoImplicit false

namespace RiaJit.Translate

open EmitLogic X86

/-! ## Dispatch -/

/-- The emitters of `dispatch_instr` for instructions without control flow that are
modelled. -/
def coreEmitter : RiscMnem → Option (Flags → RiscInstr → Gen Unit)
  | .lui => some translateLUI
  | .auipc => some translateAUIPC
  | .addi => some translateADDI
  | .slti => some translateSLTI
  | .sltiu => some translateSLTIU
  | .xori => some translateXORI
  | .ori => some translateORI
  | .andi => some translateANDI
  | .slli => some translateSLLI
  | .srli => some translateSRLI
  | .srai => some translateSRAI
  | .add => some translateADD
  | .sub => some translateSUB
  | .sll => some translateSLL
  | .slt => some translateSLT
  | .sltu => some translateSLTU
  | .xor => some translateXOR
  | .srl => some translateSRL
  | .sra => some translateSRA
  | .or => some translateOR
  | .and => some translateAND
  | .addiw => some translateADDIW
  | .slliw => some translateSLLIW
  | .srliw => some translateSRLIW
  | .sraiw => some translateSRAIW
  | .addw => some translateADDW
  | .subw => some translateSUBW
  | .sllw => some translateSLLW
  | .srlw => some translateSRLW
  | .sraw => some translateSRAW
  | .lb => some translateLB
  | .lh => some translateLH
  | .lw => some translateLW
  | .lbu => some translateLBU
  | .lhu => some translateLHU
  | .lwu => some translateLWU
  | .ld => some translateLD
  | .sb => some translateSB
  | .sh => some translateSH
  | .sw => some translateSW
  | .sd => some translateSD
  | _ => none

variable (env : Env)

/-- `dispatch_instr`. -/
def dispatchInstr (instr : RiscInstr) : Emit Unit :=
  match coreEmitter instr.mnem with
  | some emitter => Emit.lift (emitter env.flags instr)
  | none =>
      match instr.mnem with
      | .invalidMnem => Emit.lift (translateINVALID env instr)
      | .jal => translateJAL env instr
      | .jalr => translateJALR env instr
      | .beq => translateBEQ env instr
      | .bne => translateBNE env instr
      | .blt => translateBLT env instr
      | .bge => translateBGE env instr
      | .bltu => translateBLTU env instr
      | .bgeu => translateBGEU env instr
      | .ecall => Emit.lift (translateECALL env instr)
      | .pcNextInst => Emit.lift (translatePC_NEXT_INST env instr.imm)
      -- entries that emit nothing, and mnemonics without an emitter
      | .fence | .silentNop => pure ()
      | .ebreak | .fenceI => Emit.critical env
      | _ => Emit.lift (env.others instr)

/-- The instruction boundaries of `flag_verbose_disassembly`. -/
def boundary : Gen Unit := do
  feEnc64 .nop
  feEnc64 .nop
  feEnc64 .nop

/-- `translate_risc_instr`. -/
def translateRiscInstr (instr : RiscInstr) : Emit Unit := do
  dispatchInstr env instr
  Emit.lift (onlyIf env.flags.verboseDisassembly boundary)

/-! ## Blocks -/

/-- A translated block: what `init_block` emitted, the code of each entry of the parsed
block, and what `finalize_block` emitted. -/
structure Block where
  head : CacheLoc
  prologue : List FeInstr
  chunks : List (RiscInstr × List FeInstr)
  epilogue : List FeInstr
  garbled : Bool

namespace Block

/-- The code of a block up to the end of its last entry. -/
def body (b : Block) : List FeInstr := b.prologue ++ b.chunks.flatMap Prod.snd

/-- The code of a block. -/
def code (b : Block) : List FeInstr := b.body ++ b.epilogue

/-- The entries of the parsed block. -/
def instrs (b : Block) : List RiscInstr := b.chunks.map Prod.fst

end Block

/-- A block while it is translated, with the globals that are read and changed. -/
structure BlockState where
  block : Block
  gen : GenState
  cache : CodeCache

/-- The globals of the translator between blocks. `blocks` lists what has been
translated from where, the latest first. -/
structure TransState where
  cache : CodeCache
  currentPos : CacheLoc
  rInfo : RegisterInfo
  blocks : List (RiscAddr × Block)

/-- The globals at the start of the run, with the instruction memory used up to
`pos`. -/
def TransState.initial (pos : CacheLoc) : TransState :=
  ⟨.initHashTable, pos, ⟨fun _ => invalidReg, fun _ => 0, 1⟩, []⟩

/-- A step of the translator between blocks. -/
abbrev Trans := StateT TransState (Except Stop)

/-- The start of the instruction memory, `TRANSLATOR_BASE - STACK_OFFSET`. -/
def instrMemBase : Nat := 0x780000000000 - 0x7f000000

/-- The end of the instruction memory, `TRANSLATOR_BASE`. -/
def translatorBase : Nat := 0x780000000000

/-- `init_block`. -/
def initBlock (s : TransState) : BlockState :=
  let g : Gen Unit := do
    onlyIf (¬ env.flags.ndebug) (feEnc64 .nop)
    invalidateAllReplacements
  let (_, prologue, gen) := g ⟨s.rInfo, false⟩
  ⟨⟨s.currentPos, prologue, [], [], false⟩, gen, s.cache⟩

/-- One iteration of the loop of `translate_block_instructions`. -/
def addInstr (instr : RiscInstr) (s : BlockState) : Except Stop BlockState := do
  let start := env.enc.after s.block.head s.block.body
  let (_, e) ← translateRiscInstr env instr ⟨start, [], s.gen, s.cache, s.block.garbled⟩
  return ⟨{ s.block with chunks := s.block.chunks ++ [(instr, e.code)], garbled := e.garbled },
    e.gen, e.cache⟩

/-- The loop of `translate_block_instructions`. -/
def addInstrs : List RiscInstr → BlockState → Except Stop BlockState
  | [], s => .ok s
  | instr :: instrs, s => do
      let s ← addInstr env instr s
      addInstrs instrs s

/-- The end of a block, without the alignment. -/
def blockEnd (linkNull : Bool) : Gen Unit := do
  invalidateAllReplacements
  onlyIf (env.flags.translateOptChain ∧ linkNull) (feEnc64 (.mov64miCell .chainEnd 0#64))
  feEnc64 .ret

/-- The padding to an address aligned to 16 bytes. -/
def alignment (current : BitVec 64) : List FeInstr :=
  List.replicate ((16 - current.toNat % 16) % 16) .nop

/-- `finalize_block`. Code that leaves the instruction memory is written to the
translator's own text, which faults. -/
def finalizeBlock (linkNull : Bool) (s : BlockState) : Except Stop (Block × BlockState) :=
  let (_, ending, gen) := blockEnd env linkNull s.gen
  let current := env.enc.after s.block.head (s.block.body ++ ending)
  let block := { s.block with epilogue := ending ++ alignment current }
  if s.block.head.toNat + env.enc.codeSize block.code > translatorBase then
    .error (.abort (.segfault (BitVec.ofNat 64 translatorBase)))
  else if gen.err then .error (.abort (.panic .failAssemblyErr))
  else .ok (block, { s with gen := gen })

/-- `optimize_patterns` where fusion is on. -/
def optimized (blockCache : List RiscInstr) : List RiscInstr :=
  if env.flags.translateOptFusion then env.optimizePatterns blockCache else blockCache

/-- Whether `finalize_block` is called with `LINK_NULL`. -/
def endsInEcall (blockCache : List RiscInstr) : Bool :=
  blockCache.getLast?.map RiscInstr.mnem = some .ecall

/-- `translate_block_instructions`. -/
def translateBlockInstructions (blockCache : List RiscInstr) : Trans Block := fun s => do
  let blockCache := optimized env blockCache
  let b ← addInstrs env blockCache (initBlock env s)
  let (block, b) ← finalizeBlock env (endsInEcall blockCache) b
  return (block, { s with
    cache := b.cache
    currentPos := env.enc.after block.head block.code
    rInfo := b.gen.rInfo })

/-! ## Parsing a block -/

/-- `lookup_cache_entry`. -/
def Trans.lookupCacheEntry (riscAddr : RiscAddr) : Trans CacheLoc := fun s =>
  match s.cache.lookupCacheEntry riscAddr with
  | none => .error .outOfFuel
  | some (cacheLoc, cache) => .ok (cacheLoc, { s with cache := cache })

/-- `set_cache_entry`. -/
def Trans.setCacheEntry (riscAddr : RiscAddr) (cacheLoc : CacheLoc) : Trans Unit := fun s =>
  match s.cache.setCacheEntry riscAddr cacheLoc with
  | none => .error .outOfFuel
  | some cache => .ok ((), { s with cache := cache })

/-- The run ends. -/
def Trans.abort {α : Type} (reason : Abort) : Trans α := fun _ => .error (.abort reason)

/-- The local variables of `parse_block`. -/
structure ParseState where
  riscAddr : RiscAddr
  parsePos : Nat
  instructionsInBlock : Nat
  parseBuf : Nat → RiscInstr

namespace ParseState

/-- The state at the start of `parse_block`, on a zeroed buffer. -/
def init (riscAddr : RiscAddr) : ParseState := ⟨riscAddr, 0, 0, fun _ => .ofAddr 0#64⟩

/-- An instruction is stored at `parse_pos`. -/
def store (s : ParseState) (instr : RiscInstr) : ParseState :=
  { s with parseBuf := Function.update s.parseBuf s.parsePos instr }

/-- An instruction that ends the block. -/
def finish (s : ParseState) (instr : RiscInstr) : ParseState :=
  { s.store instr with instructionsInBlock := s.instructionsInBlock + 1 }

/-- An instruction after which parsing goes on at `next`. -/
def accept (s : ParseState) (instr : RiscInstr) (next : RiscAddr) : ParseState :=
  { s.finish instr with riscAddr := next, parsePos := s.parsePos + 1 }

/-- An instruction that is skipped: the loop index is decremented and incremented. -/
def skip (s : ParseState) (instr : RiscInstr) : ParseState :=
  { s.store instr with riscAddr := s.riscAddr + 4#64 }

end ParseState

/-- How an iteration of the loop of `parse_block` ends: with the next one, or with the
jump to `PARSE_DONE`. -/
inductive ParseStep where
  | next (s : ParseState)
  | done (s : ParseState)

/-- `parse_instruction` on the entry at `parse_pos`. -/
def parseAt (riscAddr : RiscAddr) : Trans RiscInstr := fun s =>
  match Parser.parseInstruction env.flags env.mem (.ofAddr riscAddr) with
  | .error reason => .error (.abort reason)
  | .ok (_, instr) => .ok (instr, s)

section Parse

variable (translateBlock : RiscAddr → Trans CacheLoc)

/-- The recursive translation of an address that is not in the cache: it is marked,
translated and entered. -/
def translateUnseen (target : RiscAddr) : Trans Unit := do
  Trans.setCacheEntry target translationStarted
  let cacheLoc ← translateBlock target
  Trans.setCacheEntry target cacheLoc

/-- A target or return address is translated unless the cache knows it. -/
def translateTarget (target : RiscAddr) : Trans Unit := do
  let cacheLoc ← Trans.lookupCacheEntry target
  if cacheLoc = unseenCode then translateUnseen translateBlock target

/-- An access to `fflags`, `frm` or `fcsr` is dispatched on its own; the mnemonic is
saved in `reg_src_2`. -/
def markCsr (instr : RiscInstr) : RiscInstr :=
  if 0 < instr.imm.toInt ∧ instr.imm.toInt < 4 then
    { instr with regSrc2 := instr.mnem.ctorIdx, mnem := .manualCsrr }
  else instr

/-- The cases of `SYSTEM`. -/
def parseSystem (s : ParseState) (instr : RiscInstr) : Trans ParseStep :=
  match instr.mnem with
  | .ecall => return .done (s.finish instr)
  | .fence | .fenceI => return .next (s.skip instr)
  | .ebreak =>
      return .done (s.finish
        { instr with imm := 0#64, mnem := .invalidMnem, optype := .invalidInstruction })
  | .csrrs | .csrrsi | .csrrw | .csrrwi | .csrrc | .csrrci =>
      return .next (s.accept (markCsr instr) (s.riscAddr + 4#64))
  | _ => Trans.abort (.panic .failInvalidState)

/-- The entry that replaces a jump that is followed. -/
def followedJump (riscAddr : RiscAddr) (regDest : Nat) : RiscInstr :=
  ⟨riscAddr, .auipc, .immediate, x0, x0, regDest, 4#64⟩

/-- The cases of `JAL`. -/
def parseJal (s : ParseState) (instr : RiscInstr) : Trans ParseStep :=
  if ¬ env.flags.translateOptJump then return .done (s.finish instr)
  else if isLink instr.regDest then do
    translateTarget translateBlock (s.riscAddr + instr.imm)
    translateTarget translateBlock (s.riscAddr + 4#64)
    return .done (s.finish instr)
  else if instr.regDest ≠ x0 then do
    translateTarget translateBlock (s.riscAddr + instr.imm)
    return .done (s.finish instr)
  else
    return .next (s.accept (followedJump s.riscAddr instr.regDest) (s.riscAddr + instr.imm))

/-- The condition of `parse_block` for a jump to the target of an `AUIPC` and `JALR`. -/
def isAuipcJalr (s : ParseState) (instr : RiscInstr) : Prop :=
  env.flags.translateOptJump ∧ s.instructionsInBlock > 0 ∧
    (s.parseBuf (s.parsePos - 1)).mnem = .auipc ∧
    (s.parseBuf (s.parsePos - 1)).regDest ≠ x0 ∧
    instr.regSrc1 = (s.parseBuf (s.parsePos - 1)).regDest

instance (s : ParseState) (instr : RiscInstr) : Decidable (isAuipcJalr env s instr) :=
  inferInstanceAs (Decidable (_ ∧ _))

/-- The end of the case of `JALR`: the hint for `translate_JALR` is stored. -/
def parseJalrEnd (s : ParseState) (instr : RiscInstr) : Trans ParseStep :=
  if isAuipcJalr env s instr then do
    translateTarget translateBlock (s.riscAddr + 4#64)
    translateTarget translateBlock
      (s.riscAddr - 4#64 + (s.parseBuf (s.parsePos - 1)).imm + instr.imm)
    return .done (s.finish { instr with regSrc2 := 1 })
  else return .done (s.finish { instr with regSrc2 := 0 })

/-- The case of `JALR`. -/
def parseJalr (s : ParseState) (instr : RiscInstr) : Trans ParseStep :=
  if env.flags.translateOptRas ∧ isLink instr.regDest then do
    translateTarget translateBlock (s.riscAddr + 4#64)
    parseJalrEnd env translateBlock s instr
  else parseJalrEnd env translateBlock s instr

/-- The switch over the type of an instruction. -/
def parseSwitch (s : ParseState) (instr : RiscInstr) : Trans ParseStep :=
  match instr.optype with
  | .invalidInstruction | .branch => return .done (s.finish instr)
  | .system => parseSystem s instr
  | .jump =>
      match instr.mnem with
      | .jal => parseJal env translateBlock s instr
      | .jalr => parseJalr env translateBlock s instr
      | _ => Trans.abort (.panic .failInvalidState)
  | _ => return .next (s.accept instr (s.riscAddr + 4#64))

/-- One iteration of the loop of `parse_block`. -/
def parseStep (s : ParseState) : Trans ParseStep := do
  let instr ← parseAt env s.riscAddr
  parseSwitch env translateBlock s instr

/-- The pseudo instruction at the end of a block that is cut off. -/
def pcNextInst (riscAddr : RiscAddr) : RiscInstr :=
  { RiscInstr.ofAddr 0#64 with imm := riscAddr, mnem := .pcNextInst, optype := .pseudo }

/-- The end of `parse_block` after the loop has ended at the size of the buffer. -/
def cutOff (maxCount : Nat) (s : ParseState) : ParseState :=
  { s with
    parseBuf := Function.update s.parseBuf (maxCount - 1) (pcNextInst s.riscAddr)
    instructionsInBlock := s.instructionsInBlock + 1 }

/-- The loop of `parse_block`. -/
def parseLoop (maxCount : Nat) : Nat → ParseState → Trans ParseState
  | 0, _ => fun _ => .error .outOfFuel
  | fuel + 1, s =>
      if s.parsePos + 2 ≤ maxCount then do
        match ← parseStep env translateBlock s with
        | .next s => parseLoop maxCount fuel s
        | .done s => return s
      else return cutOff maxCount s

/-- The entries that `parse_block` returns: as many as it has counted. -/
def ParseState.entries (s : ParseState) : List RiscInstr :=
  (List.range s.instructionsInBlock).map s.parseBuf

/-- `parse_block`. -/
def parseBlock (maxCount fuel : Nat) (riscAddr : RiscAddr) : Trans (List RiscInstr) := do
  let s ← parseLoop env translateBlock maxCount fuel (.init riscAddr)
  return s.entries

end Parse

/-- `maxCount` of `translate_block`. -/
def blockCacheSize : Nat := if env.flags.singleStep then 2 else 64

/-- What has been translated is noted. -/
def Trans.record (riscAddr : RiscAddr) (block : Block) : Trans Unit := fun s =>
  .ok ((), { s with blocks := (riscAddr, block) :: s.blocks })

/-- `translate_block`; the fuel bounds the depth of the recursion and the iterations of
each call of `parse_block`. -/
def translateBlock : Nat → RiscAddr → Trans CacheLoc
  | 0, _ => fun _ => .error .outOfFuel
  | fuel + 1, riscAddr => do
      let blockCache ← parseBlock env (translateBlock fuel) (blockCacheSize env) (fuel + 1) riscAddr
      let block ← translateBlockInstructions env blockCache
      Trans.record riscAddr block
      return block.head

/-- The translation of an address the cache does not know, in `transcode_loop`. -/
def translateNext (fuel : Nat) (nextPc : RiscAddr) : Trans CacheLoc := do
  let cacheLoc ← translateBlock env fuel nextPc
  Trans.setCacheEntry nextPc cacheLoc
  return cacheLoc

/-- The lookup of `transcode_loop`: the code that is executed next. -/
def transcode (fuel : Nat) (nextPc : RiscAddr) : Trans CacheLoc := do
  let cacheLoc ← Trans.lookupCacheEntry nextPc
  if cacheLoc = unseenCode then translateNext env fuel nextPc else return cacheLoc

end RiaJit.Translate
