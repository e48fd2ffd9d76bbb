import RiaJit.Gen.CodeLength
import RiaJit.Gen.Computation
import RiaJit.Parser.Decoded

/-!
# Blocks without control flow are simulated

`translate_block_instructions` on a list of computations, loads and stores: the code of
the block takes a host that holds the guest's state between two blocks to one that
holds the state after all instructions.
-/

set_option autoImplicit false

namespace RiaJit

open EmitLogic X86

theorem ShortImm.fits {imm : BitVec 64} (h : ShortImm imm) : FeInstr.fitsInt32 imm = true :=
  beq_iff_eq.2 h

namespace Translate

/-! ## The emitters -/

/-- Every emitter of these instructions simulates its instruction. -/
theorem simulates_coreEmitter (flags : Flags) {instr : RiscInstr} (hd : instr.Decoded) :
    ∃ emitter, coreEmitter instr.mnem = some emitter ∧
      Simulates (emitter flags instr) fun g => g.step instr := by
  unfold RiscInstr.Decoded at hd
  -- the operands that the parser left are in range, and immediates fit their fields
  cases hmnem : instr.mnem with rw [hmnem] at hd
  | lui => exact ⟨_, rfl, simulates_LUI flags hmnem hd⟩
  | auipc => exact ⟨_, rfl, simulates_AUIPC flags hmnem hd⟩
  | addi => exact ⟨_, rfl, simulates_ADDI flags hmnem hd.1 hd.2.1 hd.2.2.fits⟩
  | slti => exact ⟨_, rfl, simulates_SLTI flags hmnem hd.1 hd.2.1 hd.2.2.fits⟩
  | sltiu => exact ⟨_, rfl, simulates_SLTIU flags hmnem hd.1 hd.2.1 hd.2.2.fits⟩
  | xori => exact ⟨_, rfl, simulates_XORI flags hmnem hd.1 hd.2.1 hd.2.2.fits⟩
  | ori => exact ⟨_, rfl, simulates_ORI flags hmnem hd.1 hd.2.1 hd.2.2.fits⟩
  | andi => exact ⟨_, rfl, simulates_ANDI flags hmnem hd.1 hd.2.1 hd.2.2.fits⟩
  | addiw => exact ⟨_, rfl, simulates_ADDIW flags hmnem hd.1 hd.2.1 hd.2.2.fits⟩
  | slli => exact ⟨_, rfl, simulates_SLLI flags hmnem hd.1 hd.2.1 hd.2.2⟩
  | srli => exact ⟨_, rfl, simulates_SRLI flags hmnem hd.1 hd.2.1 hd.2.2⟩
  | srai => exact ⟨_, rfl, simulates_SRAI flags hmnem hd.1 hd.2.1 hd.2.2⟩
  | slliw => exact ⟨_, rfl, simulates_SLLIW flags hmnem hd.1 hd.2.1 hd.2.2⟩
  | srliw => exact ⟨_, rfl, simulates_SRLIW flags hmnem hd.1 hd.2.1 hd.2.2⟩
  | sraiw => exact ⟨_, rfl, simulates_SRAIW flags hmnem hd.1 hd.2.1 hd.2.2⟩
  | lb => exact ⟨_, rfl, simulates_LB flags hmnem hd.1 hd.2.1 hd.2.2.fits⟩
  | lh => exact ⟨_, rfl, simulates_LH flags hmnem hd.1 hd.2.1 hd.2.2.fits⟩
  | lw => exact ⟨_, rfl, simulates_LW flags hmnem hd.1 hd.2.1 hd.2.2.fits⟩
  | lbu => exact ⟨_, rfl, simulates_LBU flags hmnem hd.1 hd.2.1 hd.2.2.fits⟩
  | lhu => exact ⟨_, rfl, simulates_LHU flags hmnem hd.1 hd.2.1 hd.2.2.fits⟩
  | lwu => exact ⟨_, rfl, simulates_LWU flags hmnem hd.1 hd.2.1 hd.2.2.fits⟩
  | ld => exact ⟨_, rfl, simulates_LD flags hmnem hd.1 hd.2.1 hd.2.2.fits⟩
  | add => exact ⟨_, rfl, simulates_ADD flags hmnem hd.1 hd.2.1 hd.2.2⟩
  | sub => exact ⟨_, rfl, simulates_SUB flags hmnem hd.1 hd.2.1 hd.2.2⟩
  | sll => exact ⟨_, rfl, simulates_SLL hmnem hd.1 hd.2.1 hd.2.2⟩
  | slt => exact ⟨_, rfl, simulates_SLT flags hmnem hd.1 hd.2.1 hd.2.2⟩
  | sltu => exact ⟨_, rfl, simulates_SLTU flags hmnem hd.1 hd.2.1 hd.2.2⟩
  | xor => exact ⟨_, rfl, simulates_XOR flags hmnem hd.1 hd.2.1 hd.2.2⟩
  | srl => exact ⟨_, rfl, simulates_SRL hmnem hd.1 hd.2.1 hd.2.2⟩
  | sra => exact ⟨_, rfl, simulates_SRA hmnem hd.1 hd.2.1 hd.2.2⟩
  | or => exact ⟨_, rfl, simulates_OR flags hmnem hd.1 hd.2.1 hd.2.2⟩
  | and => exact ⟨_, rfl, simulates_AND flags hmnem hd.1 hd.2.1 hd.2.2⟩
  | addw => exact ⟨_, rfl, simulates_ADDW flags hmnem hd.1 hd.2.1 hd.2.2⟩
  | subw => exact ⟨_, rfl, simulates_SUBW flags hmnem hd.1 hd.2.1 hd.2.2⟩
  | sllw => exact ⟨_, rfl, simulates_SLLW hmnem hd.1 hd.2.1 hd.2.2⟩
  | srlw => exact ⟨_, rfl, simulates_SRLW hmnem hd.1 hd.2.1 hd.2.2⟩
  | sraw => exact ⟨_, rfl, simulates_SRAW hmnem hd.1 hd.2.1 hd.2.2⟩
  | sb => exact ⟨_, rfl, simulates_SB flags hmnem hd.1 hd.2.1 hd.2.2.fits⟩
  | sh => exact ⟨_, rfl, simulates_SH flags hmnem hd.1 hd.2.1 hd.2.2.fits⟩
  | sw => exact ⟨_, rfl, simulates_SW flags hmnem hd.1 hd.2.1 hd.2.2.fits⟩
  | sd => exact ⟨_, rfl, simulates_SD flags hmnem hd.1 hd.2.1 hd.2.2.fits⟩
  | _ => exact hd.elim

/-! ## From one instruction to a block -/

section Blocks

variable {env : Env} {h₀ : HostState} {g : GuestState}

/-- What relates the guest's state with `r_info` and the host while a block is emitted and
run, from the host state `h₀` on. -/
def Simulated (h₀ : HostState) (g : GuestState) (s : GenState) (h : HostState) : Prop :=
  Represents x0 g s.rInfo h ∧ s.err = false ∧ Outside h₀ h

/-- A simulation as a rule of the logic of emitted code. -/
theorem Simulates.triple {gen : Gen Unit} {f : GuestState → GuestState} (hs : Simulates gen f)
    (h₀ : HostState) (g : GuestState) :
    Triple FeInstr.exec (Simulated h₀ g) gen fun _ => Simulated h₀ (f g) := by
  rw [triple_iff_runs]
  rintro ⟨r, e⟩ h ⟨hrep, herr, hout⟩
  obtain ⟨r', h', hrun, hrep', hout'⟩ := hs g r h e hrep
  exact ⟨(), ⟨r', e⟩, h', hrun, hrep', herr, hout.trans hout'⟩

/-- A `NOP` does nothing for the guest. -/
theorem simulates_nop : Simulates (feEnc64 .nop) id := fun _ r h _ hrep =>
  ⟨r, h, runs_feEnc64 rfl rfl, hrep, Outside.refl h⟩

theorem Simulates.onlyIf {c : Prop} [Decidable c] {gen : Gen Unit} (hs : Simulates gen id) :
    Simulates (onlyIf c gen) id := by
  unfold Translate.onlyIf
  split
  · exact hs
  · exact Simulates.ret

/-- Writing back the replacements does nothing for the guest. -/
theorem simulates_invalidateAll : Simulates invalidateAllReplacements id := by
  intro g r h e hrep
  obtain ⟨r', h', hrun, hrep', hout, -⟩ := invalidateAllReplacements_runs (e := e) hrep
  exact ⟨r', h', hrun, hrep', hout⟩

/-- The code of one entry of a block. -/
def entryCode (flags : Flags) (instr : RiscInstr) : Gen Unit :=
  match coreEmitter instr.mnem with
  | some emitter => do
      emitter flags instr
      onlyIf flags.verboseDisassembly boundary
  | none => pure ()

/-- The code for an entry does what the instruction does. -/
theorem simulates_entryCode (flags : Flags) {instr : RiscInstr} (hd : instr.Decoded) :
    Simulates (entryCode flags instr) fun g => g.step instr := by
  obtain ⟨emitter, hem, hs⟩ := simulates_coreEmitter flags hd
  unfold entryCode
  rw [hem]
  have hboundary : Simulates boundary id := simulates_nop.bind (simulates_nop.bind simulates_nop)
  exact hs.bind hboundary.onlyIf

/-- The code that the loop of `translate_block_instructions` appends is that of its entries, one
after the other with one `r_info`. -/
theorem addInstrs_code {instrs : List RiscInstr}
    (hcore : ∀ instr ∈ instrs, (coreEmitter instr.mnem).isSome) (s : BlockState) :
    ∃ chunks, addInstrs env instrs s = .ok
        { s with
          block := { s.block with chunks := s.block.chunks ++ chunks }
          gen := (instrs.forM (entryCode env.flags) s.gen).2.2 } ∧
      chunks.map Prod.fst = instrs ∧
      chunks.flatMap Prod.snd = (instrs.forM (entryCode env.flags) s.gen).2.1 := by
  -- on the entries; the `r_info` after the first one is what the others start with
  induction instrs generalizing s with
  | nil => exact ⟨[], by rw [List.append_nil]; rfl, rfl, rfl⟩
  | cons instr instrs ih =>
      obtain ⟨emitter, hem⟩ := Option.isSome_iff_exists.1 (hcore instr (List.mem_cons_self ..))
      have hentry : entryCode env.flags instr = (do
          emitter env.flags instr
          onlyIf env.flags.verboseDisassembly boundary) := by
        unfold entryCode
        rw [hem]
      have hdispatch : dispatchInstr env instr = Emit.lift (emitter env.flags instr) := by
        unfold dispatchInstr
        rw [hem]
      have hadd : addInstr env instr s = .ok
          { s with
            block := { s.block with
              chunks := s.block.chunks ++ [(instr, (entryCode env.flags instr s.gen).2.1)] }
            gen := (entryCode env.flags instr s.gen).2.2 } := by
        unfold addInstr translateRiscInstr
        rw [hdispatch, hentry]
        rfl
      obtain ⟨chunks, hrest, hinstrs, hcode⟩ := ih (fun i hi => hcore i (List.mem_cons_of_mem _ hi))
        { s with
          block := { s.block with
            chunks := s.block.chunks ++ [(instr, (entryCode env.flags instr s.gen).2.1)] }
          gen := (entryCode env.flags instr s.gen).2.2 }
      refine ⟨(instr, (entryCode env.flags instr s.gen).2.1) :: chunks, ?_, ?_, ?_⟩
      · show (addInstr env instr s).bind _ = _
        rw [hadd]
        refine hrest.trans ?_
        rw [List.append_assoc]
        rfl
      · rw [List.map_cons, hinstrs]
      · rw [List.flatMap_cons, hcode]
        rfl

/-- The code of a block up to its `RET`. -/
def blockGen (flags : Flags) (instrs : List RiscInstr) : Gen Unit := do
  (do
    onlyIf (¬ flags.ndebug) (feEnc64 .nop)
    invalidateAllReplacements)
  instrs.forM (entryCode flags)
  invalidateAllReplacements

/-- The instructions of a block one after the other. -/
def stepAll (instrs : List RiscInstr) (g : GuestState) : GuestState :=
  instrs.foldl (fun g instr => g.step instr) g

/-- The code for a block does what its instructions do, and leaves nothing cached. -/
theorem blockGen_triple (flags : Flags) {instrs : List RiscInstr}
    (hd : ∀ instr ∈ instrs, instr.Decoded) (h₀ : HostState) (g : GuestState) :
    Triple FeInstr.exec (Simulated h₀ g) (blockGen flags instrs)
      fun _ s h => Simulated h₀ (stepAll instrs g) s h ∧ s.rInfo.Empty := by
  have hprologue : Simulates (do
      onlyIf (¬ flags.ndebug) (feEnc64 .nop)
      invalidateAllReplacements) id :=
    simulates_nop.onlyIf.bind simulates_invalidateAll
  have hloop := Triple.forM (I := Simulated h₀) (f := fun instr g => g.step instr) instrs
    (fun instr hi c => (simulates_entryCode flags (hd instr hi)).triple h₀ c) g
  refine Triple.bind (hprologue.triple h₀ g) fun _ => Triple.bind hloop fun _ => ?_
  rw [triple_iff_runs]
  rintro ⟨r, e⟩ h ⟨hrep, herr, hout⟩
  obtain ⟨r', h', hrun, hrep', hout', hempty⟩ := invalidateAllReplacements_runs (e := e) hrep
  exact ⟨(), ⟨r', e⟩, h', hrun, ⟨hrep', herr, hout.trans hout'⟩, hempty⟩

/-- An entry emits the boundary and its instruction. -/
theorem bounded_entryCode (flags : Flags) (instr : RiscInstr) :
    Bounded (maxEmitted + 3) (entryCode flags instr) := by
  have hboundary : Bounded 3 boundary :=
    .bind (bounded_feEnc64 _) fun _ => .bind (bounded_feEnc64 _) fun _ => bounded_feEnc64 _
  unfold entryCode
  split
  · rename_i emitter hem
    exact .bind (bounded_coreEmitter flags instr hem) fun _ => bounded_onlyIf hboundary
  · exact (Bounded.ret ()).mono (Nat.zero_le _)

theorem bounded_entries (flags : Flags) (instrs : List RiscInstr) :
    Bounded ((maxEmitted + 3) * instrs.length) (instrs.forM (entryCode flags)) := by
  induction instrs with
  | nil => exact .ret ()
  | cons instr instrs ih =>
      rw [List.length_cons, Nat.mul_succ, Nat.add_comm]
      exact .bind (bounded_entryCode flags instr) fun _ => ih

/-- The instructions that a block takes up to its `RET`, at most. -/
def maxBody (n : Nat) : Nat := (maxEmitted + 3) * n + 7

/-- A block emits so much for each entry, and its end. -/
theorem bounded_blockGen (flags : Flags) (instrs : List RiscInstr) :
    Bounded (maxBody instrs.length) (blockGen flags instrs) := by
  have hprologue : Bounded 4 (do
      onlyIf (¬ flags.ndebug) (feEnc64 .nop)
      invalidateAllReplacements) :=
    .bind (bounded_onlyIf (bounded_feEnc64 _)) fun _ => bounded_invalidateAll
  refine Bounded.mono (n := 4 + ((maxEmitted + 3) * instrs.length + 3))
    (.bind hprologue fun _ => .bind (bounded_entries flags instrs) fun _ =>
      bounded_invalidateAll) ?_
  unfold maxBody
  omega

/-- The end of a block that is not linked. -/
theorem blockEnd_unlinked (env : Env) (s : GenState) :
    blockEnd env false s = ((), (invalidateAllReplacements s).2.1 ++ [.ret],
      (invalidateAllReplacements s).2.2) := by
  have hnone : onlyIf (env.flags.translateOptChain ∧ false = true)
      (feEnc64 (.mov64miCell .chainEnd 0#64)) = pure () := if_neg fun h => Bool.false_ne_true h.2
  unfold blockEnd
  rw [hnone]
  rfl

/-- The code of a block at `head`: its body, `RET`, and the padding to the next block. -/
def finishedCode (env : Env) (head : CacheLoc) (body : List FeInstr) : List FeInstr :=
  body ++ .ret :: alignment (env.enc.after head (body ++ [.ret]))

/-- The code leaves the instruction memory. -/
def LeavesMemory (env : Env) (head : CacheLoc) (code : List FeInstr) : Prop :=
  translatorBase < head.toNat + env.enc.codeSize code

instance (env : Env) (head : CacheLoc) (code : List FeInstr) :
    Decidable (LeavesMemory env head code) := inferInstanceAs (Decidable (_ < _))

/-- What `translate_block_instructions` makes of entries that all have an emitter here: the code
of `blockGen` and a `RET`, or a fault where that leaves the instruction memory. -/
theorem translateBlockInstructions_code (hfusion : env.flags.translateOptFusion = false)
    {instrs : List RiscInstr} (hcore : ∀ instr ∈ instrs, (coreEmitter instr.mnem).isSome)
    (t : TransState) {body : List FeInstr} {gen : GenState}
    (hgen : blockGen env.flags instrs ⟨t.rInfo, false⟩ = ((), body, gen))
    (herr : gen.err = false) :
    (LeavesMemory env t.currentPos (finishedCode env t.currentPos body) →
      translateBlockInstructions env instrs t =
        .error (.abort (.segfault (BitVec.ofNat 64 translatorBase)))) ∧
    (¬ LeavesMemory env t.currentPos (finishedCode env t.currentPos body) →
      ∃ block t', translateBlockInstructions env instrs t = .ok (block, t') ∧
        block.head = t.currentPos ∧ block.instrs = instrs ∧ block.garbled = false ∧
        block.code = finishedCode env t.currentPos body ∧ t'.rInfo = gen.rInfo) := by
  -- `ECALL` has no core emitter, so the block does not end in one
  have hecall : endsInEcall instrs = false := by
    unfold endsInEcall
    cases hlast : instrs.getLast? with
    | none => rfl
    | some instr =>
        obtain ⟨emitter, hem⟩ := Option.isSome_iff_exists.1
          (hcore instr (List.mem_of_getLast? hlast))
        refine decide_eq_false fun heq => ?_
        rw [show instr.mnem = .ecall from Option.some.inj heq] at hem
        exact absurd hem nofun
  have hopt : optimized env instrs = instrs := by
    unfold optimized
    rw [hfusion]
    rfl
  obtain ⟨chunks, hadd, hinstrs, hcode⟩ := addInstrs_code hcore (initBlock env t)
  have hunfold : translateBlockInstructions env instrs t =
      (addInstrs env (optimized env instrs) (initBlock env t)).bind fun b =>
        (finalizeBlock env (endsInEcall (optimized env instrs)) b).bind fun r =>
          .ok (r.1, { t with
            cache := r.2.cache
            currentPos := env.enc.after r.1.head r.1.code
            rInfo := r.2.gen.rInfo }) := rfl
  rw [hunfold, hopt, hecall, hadd]
  obtain ⟨b, hb⟩ : ∃ b : BlockState, b = { initBlock env t with
      block := { (initBlock env t).block with
        chunks := (initBlock env t).block.chunks ++ chunks }
      gen := (instrs.forM (entryCode env.flags) (initBlock env t).gen).2.2 } := ⟨_, rfl⟩
  have hending := blockEnd_unlinked env b.gen
  have hcode' : b.block.body ++ (invalidateAllReplacements b.gen).2.1 = body := by
    rw [hb]
    show ((initBlock env t).block.prologue ++ chunks.flatMap Prod.snd) ++ _ = _
    rw [hcode, List.append_assoc]
    exact congrArg (fun r => r.2.1) hgen
  have hgen' : (invalidateAllReplacements b.gen).2.2 = gen := by
    rw [hb]
    exact congrArg (fun r => r.2.2) hgen
  have hhead : b.block.head = t.currentPos := by rw [hb]; rfl
  have hbody : b.block.body ++ ((invalidateAllReplacements b.gen).2.1 ++ [.ret]) =
      body ++ [.ret] := by
    rw [← List.append_assoc, hcode']
  have hfinished : (⟨t.currentPos, b.block.prologue, b.block.chunks,
      (invalidateAllReplacements b.gen).2.1 ++ [.ret] ++
        alignment (env.enc.after t.currentPos (body ++ [.ret])), b.block.garbled⟩ : Block).code =
      finishedCode env t.currentPos body := by
    show b.block.body ++ (_ ++ _) = _
    rw [← List.append_assoc, hbody, List.append_assoc]
    rfl
  -- the encoder has not failed, so only the room that is left can stop `finalize_block`
  have hfin : finalizeBlock env false b =
      if LeavesMemory env t.currentPos (finishedCode env t.currentPos body) then
        .error (.abort (.segfault (BitVec.ofNat 64 translatorBase)))
      else .ok ({ b.block with
          epilogue := (invalidateAllReplacements b.gen).2.1 ++ [.ret] ++
            alignment (env.enc.after t.currentPos (body ++ [.ret])) },
        { b with gen := gen }) := by
    unfold finalizeBlock
    rw [hending]
    dsimp only
    rw [hgen', herr, hhead, hbody, hfinished]
    rfl
  rw [← hb]
  constructor
  · intro hover
    show (finalizeBlock env false b).bind _ = _
    rw [hfin, if_pos hover]
    rfl
  · intro hroom
    refine ⟨{ b.block with
        epilogue := (invalidateAllReplacements b.gen).2.1 ++ [.ret] ++
          alignment (env.enc.after t.currentPos (body ++ [.ret])) },
      { t with
        cache := b.cache
        currentPos := env.enc.after t.currentPos (finishedCode env t.currentPos body)
        rInfo := gen.rInfo }, ?_, hhead, ?_, ?_, hfinished, rfl⟩
    · show (finalizeBlock env false b).bind _ = _
      rw [hfin, if_neg hroom, ← hfinished, ← hhead]
      rfl
    · rw [hb]
      exact hinstrs
    · rw [hb]
      rfl

/-! ## Between two blocks -/

/-- The host holds the guest's state: the mapped registers in their host registers, the others
in their slots. -/
structure AtBoundary (g : GuestState) (h : HostState) : Prop where
  regs : ∀ y, y ≠ x0 → y < 32 →
    (match gpMap y with | some mapped => h.reg mapped | none => h.cell (.gp y)) = g.reg y
  mem : h.mem = g.mem

/-- With nothing cached a register is in its host register or its slot. -/
theorem regValue_empty {r : RegisterInfo} (hr : r.Empty) (h : HostState) {y : Nat} (hy : y < 32) :
    regValue r h y =
      match gpMap y with | some mapped => h.reg mapped | none => h.cell (.gp y) := by
  cases hmap : gpMap y with
  | some mapped => exact regValue_mapped hmap
  | none =>
      refine regValue_slot hmap (RegisterInfo.find_eq_none fun i => ?_)
      rw [hr i]
      unfold invalidReg
      omega

/-- Where no replacement holds a register, this is what `Represents` says. -/
theorem represents_iff_atBoundary {r : RegisterInfo} (hwf : r.WellFormed) (hr : r.Empty)
    {h : HostState} : Represents x0 g r h ↔ AtBoundary g h := by
  constructor
  · intro hrep
    refine ⟨fun y hy hlt => ?_, hrep.mem⟩
    rw [← regValue_empty hr h hlt]
    exact hrep.regs y hy hy hlt
  · intro hb
    refine ⟨hwf, fun y hy _ hlt => ?_, hb.mem⟩
    rw [regValue_empty hr h hlt]
    exact hb.regs y hy hlt

/-- Every host state holds some state of the guest. -/
theorem represents_self {r : RegisterInfo} (hwf : r.WellFormed) (h : HostState) :
    Represents x0 ⟨regValue r h, h.mem⟩ r h :=
  ⟨hwf, fun _ _ _ _ => rfl, rfl⟩

/-- What is expected of the translation of a block. There is a body, of which the instructions
decide how long it can be, that does what they do one after the other. Translation faults if and
only if the body with its `RET` and padding leaves the instruction memory; else it returns a block
with this code, and `r_info` is empty again. -/
def SimulatesBlock (env : Env) (instrs : List RiscInstr) (t : TransState)
    (result : Except Stop (Block × TransState)) : Prop :=
  ∃ body : List FeInstr, body.length ≤ maxBody instrs.length ∧
    (∀ g h, AtBoundary g h → ∃ h', runCode FeInstr.exec body h = some h' ∧
      AtBoundary (stepAll instrs g) h' ∧ Outside h h') ∧
    (LeavesMemory env t.currentPos (finishedCode env t.currentPos body) →
      result = .error (.abort (.segfault (BitVec.ofNat 64 translatorBase)))) ∧
    (¬ LeavesMemory env t.currentPos (finishedCode env t.currentPos body) →
      ∃ block t', result = .ok (block, t') ∧ block.head = t.currentPos ∧
        block.instrs = instrs ∧ block.garbled = false ∧
        block.code = finishedCode env t.currentPos body ∧
        t'.rInfo.WellFormed ∧ t'.rInfo.Empty)

/-- A block of computations, loads and stores does what its instructions do. -/
theorem translateBlockInstructions_simulates (env : Env)
    (hfusion : env.flags.translateOptFusion = false) {t : TransState}
    (hwf : t.rInfo.WellFormed) (hempty : t.rInfo.Empty) {instrs : List RiscInstr}
    (hd : ∀ instr ∈ instrs, instr.Decoded) :
    SimulatesBlock env instrs t (translateBlockInstructions env instrs t) := by
  have hcore : ∀ instr ∈ instrs, (coreEmitter instr.mnem).isSome := fun instr hi => by
    obtain ⟨emitter, hem, -⟩ := simulates_coreEmitter env.flags (hd instr hi)
    rw [hem]
    rfl
  obtain ⟨body, gen, hgen⟩ : ∃ body gen,
      blockGen env.flags instrs ⟨t.rInfo, false⟩ = ((), body, gen) := ⟨_, _, rfl⟩
  have hrun : ∀ h g, Represents x0 g t.rInfo h → ∃ h', runCode FeInstr.exec body h = some h' ∧
      Simulated h (stepAll instrs g) gen h' ∧ gen.rInfo.Empty := by
    intro h g hrep
    have htriple := blockGen_triple env.flags hd h g ⟨t.rInfo, false⟩ h ⟨hrep, rfl, Outside.refl h⟩
    rwa [hgen] at htriple
  have hlength : body.length ≤ maxBody instrs.length := by
    have hbounded := bounded_blockGen env.flags instrs ⟨t.rInfo, false⟩
    rwa [hgen] at hbounded
  -- what the generator leaves does not depend on the host, so any host tells it
  obtain ⟨_, -, ⟨hrep, herr, -⟩, hempty'⟩ := hrun ⟨fun _ => 0#64, none, fun _ => 0#64,
    fun _ => 0#8, []⟩ _ (represents_self hwf _)
  obtain ⟨hover, hroom⟩ := translateBlockInstructions_code hfusion hcore t hgen herr
  refine ⟨body, hlength, fun g h hb => ?_, hover, fun hnot => ?_⟩
  · obtain ⟨h', hrun', ⟨hrep', -, hout⟩, -⟩ :=
      hrun h g ((represents_iff_atBoundary hwf hempty).2 hb)
    exact ⟨h', hrun', (represents_iff_atBoundary hrep.wf hempty').1 hrep', hout⟩
  · obtain ⟨block, t', hok, hhead, hinstrs, hgarbled, hcode, hrInfo⟩ := hroom hnot
    refine ⟨block, t', hok, hhead, hinstrs, hgarbled, hcode, ?_, ?_⟩
    · rw [hrInfo]
      exact hrep.wf
    · rw [hrInfo]
      exact hempty'

/-- A block with its padding takes fifteen bytes an instruction at most. -/
theorem codeSize_finishedCode (env : Env) (head : CacheLoc) {body : List FeInstr} {n : Nat}
    (hlength : body.length ≤ n) :
    env.enc.codeSize (finishedCode env head body) ≤ 15 * (n + 16) := by
  have halign : (alignment (env.enc.after head (body ++ [.ret]))).length ≤ 15 := by
    unfold alignment
    rw [List.length_replicate]
    omega
  refine (env.enc.codeSize_le _).trans ?_
  unfold finishedCode
  rw [List.length_append, List.length_cons]
  omega

theorem empty_initial (pos : CacheLoc) : (TransState.initial pos).rInfo.Empty := fun _ => rfl

theorem wellFormed_initial (pos : CacheLoc) : (TransState.initial pos).rInfo.WellFormed :=
  ⟨fun _ => .inr rfl, fun _ _ _ _ hvalid => absurd rfl hvalid,
    fun _ => ⟨fun _ => rfl, fun _ => rfl⟩,
    fun _ _ _ hold => absurd rfl hold, fun _ => Nat.zero_le _⟩

/-- The emission of the first instruction of a block. -/
def blockStart : EmitState :=
  ⟨BitVec.ofNat 64 instrMemBase, [], ⟨(TransState.initial 0#64).rInfo, false⟩,
    (TransState.initial 0#64).cache, false⟩

/-- `ADDI x5, x0, 7`, `LW x0, 0(x5)`, `SLL x6, x5, x6` and `SD x6, -8(x2)`: `x0` on both sides, a
shift amount that is the destination, and replacements that are evicted. -/
def shortBlock : List RiscInstr :=
  [⟨0x1000#64, .addi, .immediate, 0, invalidReg, 5, 7#64⟩,
    ⟨0x1004#64, .lw, .immediate, 5, invalidReg, 0, 0#64⟩,
    ⟨0x1008#64, .sll, .regReg, 5, 6, 6, 0#64⟩,
    ⟨0x100c#64, .sd, .store, 2, 6, invalidReg, -8#64⟩]

/-- The translator of programs without fusion. -/
def unfused : Env := .plain { translateOptFusion := false } fun _ => none

theorem shortBlock_decoded : ∀ instr ∈ shortBlock, instr.Decoded := by
  decide

/-- The block is translated, and its code does what its instructions do. -/
theorem translateBlockInstructions_simulates_shortBlock :
    ∃ block t' body padding,
      translateBlockInstructions unfused shortBlock (.initial (BitVec.ofNat 64 instrMemBase)) =
        .ok (block, t') ∧ block.code = body ++ .ret :: padding ∧
      ∀ g h, AtBoundary g h → ∃ h', runCode FeInstr.exec body h = some h' ∧
        AtBoundary (stepAll shortBlock g) h' ∧ Outside h h' := by
  obtain ⟨body, hlength, hrun, -, hroom⟩ := translateBlockInstructions_simulates unfused rfl
    (wellFormed_initial (BitVec.ofNat 64 instrMemBase)) (empty_initial _) shortBlock_decoded
  have hsize := codeSize_finishedCode unfused (BitVec.ofNat 64 instrMemBase) hlength
  have hfits : ¬ LeavesMemory unfused (BitVec.ofNat 64 instrMemBase)
      (finishedCode unfused (BitVec.ofNat 64 instrMemBase) body) := by
    unfold LeavesMemory
    have hbound : (BitVec.ofNat 64 instrMemBase).toNat + 15 * (maxBody shortBlock.length + 16) ≤
        translatorBase := by decide
    omega
  obtain ⟨block, t', hok, -, -, -, hcode, -⟩ := hroom hfits
  exact ⟨block, t', body, _, hok, hcode, hrun⟩

end Blocks

end Translate

end RiaJit
