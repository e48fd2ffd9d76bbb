import RiaJit.Gen.EmitRules
import RiaJit.Gen.Fusion
import RiaJit.Gen.InProgress
import RiaJit.Parser.Rejected

/-!
# Where translation stops

`parse_block` translates the targets and the return addresses of jumps before they are
executed, and what lies there may be no code at all. The parser ends the run at some of the
words that are no instruction, and reads others as instructions. Where it rejects all that it
meets, what can still end the run is a fetch outside the code, a full instruction memory and
the assembler.
-/

set_option autoImplicit false

namespace RiaJit.Translate

open StateExcept CodeCache Encoding

/-! ## Parsing -/

/-- Every word of the code is an instruction, or one that the parser rejects. -/
def Readable (mem : CodeMem) : Prop := ∀ a w, mem a = some w → IsInstruction w ∨ Refused w

/-- The ends of a translation whose words are all read or rejected. -/
inductive StopLeft (env : Env) : Stop → Prop
  | outOfFuel : StopLeft env .outOfFuel
  | unmapped {a : RiscAddr} : env.mem a = none → StopLeft env (.abort (.segfault a))
  | full : StopLeft env (.abort (.segfault (BitVec.ofNat 64 translatorBase)))
  | assembler : StopLeft env (.abort (.panic .failAssemblyErr))

section Parsing

variable {env : Env} (hmem : Readable env.mem)

include hmem

/-- Where it can be fetched, a word is parsed. -/
theorem parseInstruction_readable {instr : RiscInstr} {reason : Abort}
    (h : Parser.parseInstruction env.flags env.mem instr = .error reason) :
    reason = .segfault instr.addr ∧ env.mem instr.addr = none := by
  cases hword : env.mem instr.addr with
  | none =>
      unfold Parser.parseInstruction at h
      rw [hword] at h
      exact ⟨(Except.error.inj h).symm, rfl⟩
  | some w =>
      rcases hmem _ _ hword with ⟨i, -, rfl⟩ | hrefused
      · obtain ⟨r, hparse, -⟩ := parseInstruction_encode env.flags env.mem instr i hword
        exact nomatch h.symm.trans hparse
      · unfold Parser.parseInstruction at h
        rw [hword] at h
        obtain ⟨errorCode, r, hparse, -⟩ :=
          (rejected_parseOpcode env.flags w (Parser.basicStruct w instr)).2 hrefused
        exact nomatch h.symm.trans hparse

/-- The parser of an instruction stops at unmapped words only. -/
theorem parseAt_readable {I : TransState → Prop} (a : RiscAddr) :
    Spec I (parseAt env a) (fun _ => I) (StopLeft env) := by
  intro t hI
  unfold parseAt
  split
  · rename_i reason hparse
    refine ⟨fun _ _ h => absurd h nofun, fun e h => ?_⟩
    obtain rfl := Except.error.inj h
    obtain ⟨rfl, hnone⟩ := parseInstruction_readable hmem hparse
    exact .unmapped hnone
  · refine ⟨fun _ t' h => ?_, fun _ h => absurd h nofun⟩
    obtain ⟨-, rfl⟩ := Prod.mk.inj (Except.ok.inj h)
    exact hI

end Parsing

/-! ## Emission -/

/-- The step ends the run only where it fetches a word outside the code. -/
def Quiet {α : Type} (env : Env) (x : Emit α) : Prop :=
  Spec (fun _ => True) x (fun _ _ => True) (StopLeft env)

section Emission

variable {α : Type} {env : Env}

theorem quiet_of_ok {x : Emit α} (h : ∀ s, ∃ r, x s = .ok r) : Quiet env x := by
  intro s _
  obtain ⟨r, hr⟩ := h s
  exact ⟨fun _ _ _ => trivial, fun e he => nomatch hr.symm.trans he⟩

/-- A lookup stops nothing. -/
theorem quiet_lookupCacheEntry (a : RiscAddr) : Quiet env (Emit.lookupCacheEntry a) := by
  intro s _
  refine ⟨fun _ _ _ => trivial, fun e h => ?_⟩
  unfold Emit.lookupCacheEntry at h
  split at h
  · obtain rfl := Except.error.inj h
    exact .outOfFuel
  · exact absurd h nofun

variable (env) in
/-- Emitting a jump stops nothing: a jump that is rejected raises the error flag. -/
theorem encJump_ok (cond : Option X86.Cond) (jmpl : Bool) (target : BitVec 64) (s : EmitState) :
    ∃ s', Emit.encJump env cond jmpl target s = .ok ((), s') := by
  unfold Emit.encJump
  split
  · exact ⟨_, rfl⟩
  · exact ⟨_, rfl⟩

variable (env) in
/-- Nor does sending a dummy to its target. -/
theorem replaceJump_ok (slot : Nat) (cond : Option X86.Cond) (jmpl : Bool) (target : BitVec 64)
    (s : EmitState) : ∃ r, Emit.replaceJump env slot cond jmpl target s = .ok r := by
  unfold Emit.replaceJump
  split
  · unfold Emit.overwrite
    split
    · exact ⟨_, rfl⟩
    · exact ⟨_, rfl⟩
  · exact ⟨_, rfl⟩

/-- Whatever the translator of an instruction is built from stops for the remaining reasons only.
-/
theorem closed_quiet (hmem : Readable env.mem) : Closed env fun _ x => Quiet env x where
  ret a := Spec.ret fun _ h => h
  bind hx hk := hx.bind hk
  get := quiet_of_ok fun s => ⟨_, rfl⟩
  lift g := quiet_of_ok fun s => ⟨_, rfl⟩
  lookupCacheEntry := quiet_lookupCacheEntry
  encJump cond jmpl target := quiet_of_ok fun s => by
    obtain ⟨s', hs⟩ := encJump_ok env cond jmpl target s
    exact ⟨_, hs⟩
  encDummy cond jmpl := quiet_of_ok fun s => by
    obtain ⟨s', hs⟩ := encJump_ok env cond jmpl (Emit.current env s) s
    unfold Emit.encDummy
    rw [hs]
    exact ⟨_, rfl⟩
  replaceJump slot cond jmpl target := quiet_of_ok (replaceJump_ok env slot cond jmpl target)
  replaceJumpHere slot cond jmpl := quiet_of_ok fun s =>
    replaceJump_ok env slot cond jmpl (Emit.current env s) s
  jalrStaticTarget instr := by
    intro s _
    refine ⟨fun _ _ _ => trivial, fun e h => ?_⟩
    unfold jalrStaticTarget at h
    split at h
    · rename_i reason hparse
      obtain rfl := Except.error.inj h
      obtain ⟨rfl, hnone⟩ := parseInstruction_readable hmem hparse
      exact .unmapped hnone
    · exact absurd h nofun

end Emission

/-! ## Blocks -/

/-- Parsing goes on after a `FENCE.I`. -/
theorem staticNext_fenceI {flags : Flags} {instr : RiscInstr} (hclass : instr.Classified)
    (hmnem : instr.mnem = .fenceI) : staticNext flags instr = some (instr.addr + 4#64) := by
  have hoptype : instr.optype = .system := by
    have hcontrol := hclass.control
    rw [hmnem] at hcontrol
    cases hoptype : instr.optype with
    | system => rfl
    | _ =>
        rw [hoptype] at hcontrol
        simp [RiscMnem.controlType, RiscOptype.controlType] at hcontrol
  unfold staticNext
  rw [hoptype, hmnem]

/-- Nothing that `parse_block` returns is an `EBREAK` or a `FENCE.I`. -/
theorem isBlock_dispatched {env : Env} {maxCount : Nat} {a : RiscAddr} {entries : List RiscInstr}
    (h : IsBlock env maxCount a entries) :
    ∀ entry ∈ entries, entry.mnem ≠ .ebreak ∧ entry.mnem ≠ .fenceI := by
  obtain ⟨trace, b, last, htrace, rfl, hend, -⟩ := h
  intro entry hmem
  rcases List.mem_append.1 hmem with hmem | hmem
  · obtain ⟨instr, hinstr, rfl⟩ := List.mem_map.1 hmem
    obtain ⟨hinstr, hfence⟩ := List.mem_filter.1 hinstr
    refine htrace.forall_mem (p := fun instr => isFence instr = false →
      (rewritten instr).mnem ≠ .ebreak ∧ (rewritten instr).mnem ≠ .fenceI)
      (fun instr _ hclass hnext hfence => ?_) instr hinstr (by simpa using hfence)
    -- fences are not among the entries, and an `EBREAK` has no successor
    by_cases hjal : instr.mnem = .jal
    · unfold rewritten
      rw [hjal]
      exact ⟨by simp, by simp⟩
    · obtain ⟨-, -, -, -, hebreak⟩ := staticNext_some hnext
      rcases (rewritten_fields hjal).2 with h | h
      · rw [h]
        refine ⟨hebreak, fun hmnem => ?_⟩
        simp [isFence, hmnem] at hfence
      · rw [h]
        exact ⟨by simp, by simp⟩
  · -- the last entry
    obtain rfl := List.mem_singleton.1 hmem
    cases hend with
    | @terminator instr hfetch _ hnext =>
        unfold rewrittenEnd
        split
        · exact ⟨by simp, by simp⟩
        · rename_i hjalr
          rw [show ({ instr with regSrc2 := _ } : RiscInstr).mnem = .jalr from hjalr]
          exact ⟨by simp, by simp⟩
        · rename_i hebreak _
          refine ⟨hebreak, fun hmnem => ?_⟩
          rw [staticNext_fenceI (fetched_sound hfetch).2 hmnem] at hnext
          cases hnext
    | cutOff _ => exact ⟨(by simp [pcNextInst]), (by simp [pcNextInst])⟩

section Blocks

variable {env : Env} (hmem : Readable env.mem)

include hmem

/-- So does adding an instruction that is not critical. -/
theorem addInstr_quiet {instr : RiscInstr} (h : instr.mnem ≠ .ebreak ∧ instr.mnem ≠ .fenceI)
    (s : BlockState) (e : Stop) (herr : addInstr env instr s = .error e) : StopLeft env e := by
  unfold addInstr at herr
  dsimp only at herr
  cases hrun : translateRiscInstr env instr
      ⟨env.enc.after s.block.head s.block.body, [], s.gen, s.cache, s.block.garbled⟩ with
  | error reason =>
      rw [hrun] at herr
      obtain rfl : reason = e := Except.error.inj herr
      have hcritical : instr.mnem = .ebreak ∨ instr.mnem = .fenceI →
          Quiet env (Emit.critical env) :=
        fun hor => absurd hor (not_or.2 h)
      exact ((closed_quiet hmem).translateRiscInstr instr hcritical _ trivial).2 _ hrun
  | ok r =>
      rw [hrun] at herr
      exact absurd herr nofun

/-- So does adding a list of them. -/
theorem addInstrs_quiet (instrs : List RiscInstr) (s : BlockState)
    (h : ∀ instr ∈ instrs, instr.mnem ≠ .ebreak ∧ instr.mnem ≠ .fenceI) (e : Stop)
    (herr : addInstrs env instrs s = .error e) : StopLeft env e := by
  induction instrs generalizing s with
  | nil => exact absurd herr nofun
  | cons instr instrs ih =>
      change (addInstr env instr s).bind (addInstrs env instrs) = .error e at herr
      cases hrun : addInstr env instr s with
      | error reason =>
          rw [hrun] at herr
          obtain rfl : reason = e := Except.error.inj herr
          exact addInstr_quiet hmem (h instr (List.mem_cons_self ..)) s _ hrun
      | ok s' =>
          rw [hrun] at herr
          exact ih s' (fun i hi => h i (List.mem_cons_of_mem _ hi)) herr

omit hmem in
/-- A block is not finished, if memory is full or the assembler rejected something. -/
theorem finalizeBlock_quiet (linkNull : Bool) (s : BlockState) (e : Stop)
    (herr : finalizeBlock env linkNull s = .error e) : StopLeft env e := by
  unfold finalizeBlock at herr
  dsimp only at herr
  split at herr
  · obtain rfl := Except.error.inj herr
    exact .full
  · split at herr
    · obtain rfl := Except.error.inj herr
      exact .assembler
    · exact absurd herr nofun

omit hmem in
/-- What is dispatched for a block that was parsed has an emitter. -/
theorem optimized_dispatched (hmatcher : MatchesPatterns env) {maxCount : Nat} {a : RiscAddr}
    {entries : List RiscInstr} (h : IsBlock env maxCount a entries) :
    ∀ entry ∈ optimized env entries, entry.mnem ≠ .ebreak ∧ entry.mnem ≠ .fenceI := by
  intro entry hentry
  rcases (optimized_entries hmatcher (isBlock_parsed h)).1 entry hentry with hown | hown | hown
  · exact isBlock_dispatched h entry hown
  · rw [hown]
    exact ⟨nofun, nofun⟩
  · rw [hown]
    exact ⟨nofun, nofun⟩

/-- Emitting a parsed block stops for no other reason. -/
theorem translateBlockInstructions_quiet (hmatcher : MatchesPatterns env) {maxCount : Nat}
    {a : RiscAddr} {entries : List RiscInstr} (h : IsBlock env maxCount a entries) (t : TransState)
    (e : Stop) (herr : translateBlockInstructions env entries t = .error e) : StopLeft env e := by
  have hoptimized := optimized_dispatched hmatcher h
  change (addInstrs env (optimized env entries) (initBlock env t)).bind _ = .error e at herr
  cases hadd : addInstrs env (optimized env entries) (initBlock env t) with
  | error reason =>
      rw [hadd] at herr
      obtain rfl : reason = e := Except.error.inj herr
      exact addInstrs_quiet hmem _ _ hoptimized _ hadd
  | ok s =>
      rw [hadd] at herr
      change (finalizeBlock env _ s).bind _ = .error e at herr
      cases hfinal : finalizeBlock env (endsInEcall (optimized env entries)) s with
      | error reason =>
          rw [hfinal] at herr
          obtain rfl : reason = e := Except.error.inj herr
          exact finalizeBlock_quiet _ s _ hfinal
      | ok r =>
          rw [hfinal] at herr
          exact absurd herr nofun

end Blocks

/-! ## Recursion -/

section Recursion

variable {env : Env} {tb : RiscAddr → Trans CacheLoc}

/-- The translation of an address stops only for the reasons that are left. -/
def QuietAll (env : Env) (tb : RiscAddr → Trans CacheLoc) : Prop :=
  ∀ a, Spec (fun _ => True) (tb a) (fun _ _ => True) (StopLeft env)

/-- The table of the translator never stops it. -/
theorem lookupCacheEntry_quiet (a : RiscAddr) :
    Spec (fun _ => True) (Trans.lookupCacheEntry a) (fun _ _ => True) (StopLeft env) := by
  intro t _
  refine ⟨fun _ _ _ => trivial, fun e h => ?_⟩
  unfold Trans.lookupCacheEntry at h
  split at h
  · obtain rfl := Except.error.inj h
    exact .outOfFuel
  · exact absurd h nofun

theorem setCacheEntry_quiet (a : RiscAddr) (loc : CacheLoc) :
    Spec (fun _ => True) (Trans.setCacheEntry a loc) (fun _ _ => True) (StopLeft env) := by
  intro t _
  refine ⟨fun _ _ _ => trivial, fun e h => ?_⟩
  unfold Trans.setCacheEntry at h
  split at h
  · obtain rfl := Except.error.inj h
    exact .outOfFuel
  · exact absurd h nofun

/-- Translating a target stops as the translator does. -/
theorem translateTarget_quiet (htb : QuietAll env tb) (target : RiscAddr) :
    Spec (fun _ => True) (translateTarget tb target) (fun _ _ => True) (StopLeft env) := by
  refine (lookupCacheEntry_quiet target).bind fun loc => Spec.ite (fun _ => ?_) fun _ =>
    Spec.ret fun _ h => h
  exact (setCacheEntry_quiet _ _).bind fun _ => (htb target).bind fun _ => setCacheEntry_quiet _ _

/-- The loop stops at unmapped words, or where a translation ahead stops. -/
theorem parseLoop_quiet (hmem : Readable env.mem) (htb : QuietAll env tb) (maxCount fuel : Nat)
    (s : ParseState) :
    Spec (fun _ => True) (parseLoop env tb maxCount fuel s) (fun _ _ => True) (StopLeft env) := by
  induction fuel generalizing s with
  | zero => exact Spec.fail .outOfFuel
  | succ fuel ih =>
      unfold parseLoop
      refine Spec.ite (fun _ => ?_) fun _ => Spec.ret fun _ h => h
      refine Spec.bind (parseStep_spec s (parseAt_readable hmem _)
        fun _ _ target _ => translateTarget_quiet htb target) fun step => ?_
      cases step with
      | next s' => exact ih s'
      | done s' => exact Spec.ret fun _ h => h

/-- No translation, however deep it recurses, ends the run for want of an instruction. -/
theorem translateBlock_quiet (hmatcher : MatchesPatterns env) (hmem : Readable env.mem)
    (fuel : Nat) : QuietAll env (translateBlock env fuel) := by
  induction fuel with
  | zero => exact fun a => Spec.fail .outOfFuel
  | succ fuel ih =>
      intro a
      have hparse : Spec (fun _ => True)
          (parseBlock env (translateBlock env fuel) (blockCacheSize env) (fuel + 1) a)
          (fun entries _ => IsBlock env (blockCacheSize env) a entries) (StopLeft env) := by
        intro t ht
        have hloop : Spec (fun _ => True) (parseBlock env (translateBlock env fuel)
            (blockCacheSize env) (fuel + 1) a) (fun _ _ => True) (StopLeft env) :=
          (parseLoop_quiet hmem ih _ _ _).bind fun _ => Spec.ret fun _ h => h
        exact ⟨fun _ _ h => parseBlock_ok (two_le_blockCacheSize env) h, (hloop t ht).2⟩
      refine Spec.bind hparse fun entries => ?_
      have hblock : Spec (fun _ => IsBlock env (blockCacheSize env) a entries)
          (translateBlockInstructions env entries) (fun _ _ => True) (StopLeft env) := fun t h =>
        ⟨fun _ _ _ => trivial, translateBlockInstructions_quiet hmem hmatcher h t⟩
      refine hblock.bind fun block => ?_
      have hrecord : Spec (fun _ => True) (Trans.record a block) (fun _ _ => True)
          (StopLeft env) := fun t _ => ⟨fun _ _ _ => trivial, fun _ h => absurd h nofun⟩
      exact hrecord.bind fun _ => Spec.ret fun _ h => h

end Recursion

end RiaJit.Translate
