import RiaJit.Gen.Assembly
import RiaJit.Gen.Speculation
import RiaJit.Gen.TranscodeLoop

/-!
# Translation of code that is not executed

Which addresses `parse_block` reads and translates ahead of execution depends on the code and on
the settings alone. Where the words at these addresses are instructions or refused, the guest
addresses that are stored fit 32 bits, and the instruction memory has room for a block each, the
translation returns.
-/

set_option autoImplicit false

namespace RiaJit.Translate

open EmitLogic StateExcept CodeCache Encoding X86

/-! ## What is read and translated ahead -/

/-- `parse_block` reads the word at `c` after the instructions of a trace from `b`. -/
def Parses (env : Env) (b : RiscAddr) (trace : List RiscInstr) (c : RiscAddr) : Prop :=
  Trace env b trace c ∧ (entriesOf trace).length + 2 ≤ blockCacheSize env

/-- The addresses that are translated with `a`: what the instructions that the parser meets in a
block translate ahead, and what these translate in turn. -/
inductive Ahead (env : Env) (a : RiscAddr) : RiscAddr → Prop
  | start : Ahead env a a
  | target {b c x : RiscAddr} {trace : List RiscInstr} {instr : RiscInstr} : Ahead env a b →
      Parses env b trace c → fetched env c = some instr →
      x ∈ targetsOf env.flags (entriesOf trace).getLast? instr → Ahead env a x

/-- The addresses whose words are read for the translation of `a`: those the parser goes over,
and the one before a marked `JALR`, which `translate_JALR` reads once more. -/
inductive Reads (env : Env) (a : RiscAddr) : RiscAddr → Prop
  | parsed {b c : RiscAddr} {trace : List RiscInstr} : Ahead env a b → Parses env b trace c →
      Reads env a c
  | before {b c : RiscAddr} {trace : List RiscInstr} {instr : RiscInstr} : Ahead env a b →
      Parses env b trace c → fetched env c = some instr → instr.mnem = .jalr →
      chainHint env.flags (entriesOf trace).getLast? instr = 1 → Reads env a (c - 4#64)

/-- The guest addresses that the exits of an instruction store fit 32 bits. -/
structure ExitsFit (instr : RiscInstr) : Prop where
  target : instr.mnem = .jal ∨ instr.optype = .branch →
    FeInstr.fitsInt32 (instr.addr + instr.imm) = true
  next : instr.optype = .branch → FeInstr.fitsInt32 (instr.addr + 4#64) = true
  link : instr.mnem = .jalr → LinkFits instr

/-- An instruction without such an exit. -/
theorem exitsFit_other {instr : RiscInstr} (hjal : instr.mnem ≠ .jal) (hjalr : instr.mnem ≠ .jalr)
    (hbranch : instr.optype ≠ .branch) : ExitsFit instr := by
  refine ⟨fun h => ?_, fun h => absurd h hbranch, fun h => absurd h hjalr⟩
  rcases h with h | h
  · exact absurd h hjal
  · exact absurd h hbranch

/-- What is read for the translation of `a` is an instruction or refused, and nothing that is
emitted for it is rejected by the assembler. `starts` has the addresses that are translated. -/
structure Harmless (env : Env) (starts : Finset RiscAddr) (a : RiscAddr) : Prop where
  starts : ∀ b, Ahead env a b → b ∈ starts
  words : ∀ c, Reads env a c → ∃ w, env.mem c = some w ∧ (IsInstruction w ∨ Refused w)
  exits : ∀ c instr, Reads env a c → fetched env c = some instr → ExitsFit instr
  others : ∀ b entries, Ahead env a b → ReadBlock env (blockCacheSize env) b entries →
    ∀ entry ∈ optimized env entries, dispatchInstr env entry = Emit.lift (env.others entry) →
      Takes Assembled maxDispatched (env.others entry)

/-- The instruction memory has room for `n` more blocks. -/
def RoomFor (n : Nat) (t : TransState) : Prop :=
  t.currentPos.toNat + 15 * (maxBlock * n) ≤ translatorBase

instance (n : Nat) (t : TransState) : Decidable (RoomFor n t) :=
  inferInstanceAs (Decidable (_ ≤ _))

/-! ## Words -/

section Words

variable {env : Env} {starts : Finset RiscAddr} {a c : RiscAddr}

/-- Every word that is read is parsed. -/
theorem Harmless.parsed (h : Harmless env starts a) (hread : Reads env a c) :
    ∃ r, Parser.parseInstruction env.flags env.mem (.ofAddr c) = .ok r := by
  obtain ⟨w, hword, hkind⟩ := h.words c hread
  rcases hkind with ⟨i, -, rfl⟩ | hrefused
  · obtain ⟨r, hparse, -⟩ := parseInstruction_encode env.flags env.mem (.ofAddr c) i hword
    exact ⟨_, hparse⟩
  · obtain ⟨errorCode, r, hparse, -⟩ :=
      (rejected_parseOpcode env.flags w (Parser.basicStruct w (.ofAddr c))).2 hrefused
    refine ⟨(errorCode.ctorIdx, r), ?_⟩
    unfold Parser.parseInstruction
    rw [show env.mem (RiscInstr.ofAddr c).addr = some w from hword]
    exact hparse

theorem parseAt_parsed {I : TransState → Prop} {E : Stop → Prop}
    (h : ∃ r, Parser.parseInstruction env.flags env.mem (.ofAddr c) = .ok r) :
    Spec I (parseAt env c) (fun _ => I) E := by
  obtain ⟨r, hparse⟩ := h
  intro t hI
  unfold parseAt
  rw [hparse]
  refine ⟨fun _ t' hrun => ?_, fun _ hrun => absurd hrun nofun⟩
  obtain ⟨-, rfl⟩ := Prod.mk.inj (Except.ok.inj hrun)
  exact hI

end Words

/-! ## Entries -/

section Entries

variable {env : Env} {starts : Finset RiscAddr} {a b c : RiscAddr} {instr : RiscInstr}

theorem format_of_core {mnem : RiscMnem} (h : coreEmitter mnem ≠ none) : mnem.format ≠ none := by
  cases mnem <;> first | exact absurd rfl h | exact nofun

/-- The class of an instruction that transfers control is that of its mnemonic. -/
theorem optype_of_controlType (hclass : instr.Classified) {optype : RiscOptype}
    (h : instr.mnem.controlType = some optype) : instr.optype = optype := by
  have hcontrol := hclass.control.symm.trans h
  generalize instr.optype = own at hcontrol
  cases own <;> first | exact Option.some.inj hcontrol | exact absurd hcontrol nofun

theorem branch_of_skipCond (hclass : instr.Classified) (h : skipCond instr.mnem ≠ none) :
    instr.optype = .branch := by
  apply optype_of_controlType hclass
  generalize instr.mnem = mnem at h
  cases mnem <;> first | rfl | exact absurd rfl h

theorem fetched_parsed (h : fetched env c = some instr) :
    ∃ n, Parser.parseInstruction env.flags env.mem (.ofAddr c) = .ok (n, instr) := by
  unfold fetched at h
  split at h
  · rename_i n instr' hparse
    obtain rfl := Option.some.inj h
    exact ⟨n, hparse⟩
  · exact absurd h nofun

/-- An entry that is the instruction as it was parsed. -/
theorem entryFits_own (hfetch : fetched env c = some instr) (hexits : ExitsFit instr)
    (hjalr : instr.mnem ≠ .jalr) (hstop : instr.mnem ≠ .ebreak ∧ instr.mnem ≠ .fenceI)
    (hothers : dispatchInstr env instr = Emit.lift (env.others instr) →
      Takes Assembled maxDispatched (env.others instr)) : EntryFits env instr := by
  obtain ⟨n, hparse⟩ := fetched_parsed hfetch
  have hclass := (fetched_sound hfetch).2
  have hoperands := Parser.parseInstruction_registerOperands _ _ _ hparse
  refine ⟨hstop, fun hcore => ?_, fun hjal => ?_, fun h => absurd h hjalr, fun hskip => ?_,
    hothers⟩
  · exact Parser.parseInstruction_decoded _ _ _ hparse (format_of_core hcore)
  · exact ⟨hoperands.jump (optype_of_controlType hclass (by rw [hjal]; rfl)),
      hexits.target (.inl hjal)⟩
  · have hbranch := branch_of_skipCond hclass hskip
    exact ⟨hoperands.branch hbranch, hexits.target (.inr hbranch), hexits.next hbranch⟩

/-- An entry without a register or an address of its own. -/
theorem entryFits_plain {entry : RiscInstr} (hcore : coreEmitter entry.mnem ≠ none → entry.Decoded)
    (hjal : entry.mnem ≠ .jal) (hjalr : entry.mnem ≠ .jalr) (hskip : skipCond entry.mnem = none)
    (hstop : entry.mnem ≠ .ebreak ∧ entry.mnem ≠ .fenceI)
    (hothers : dispatchInstr env entry = Emit.lift (env.others entry) →
      Takes Assembled maxDispatched (env.others entry)) : EntryFits env entry :=
  ⟨hstop, hcore, fun h => absurd h hjal, fun h => absurd h hjalr, fun h => absurd hskip h, hothers⟩

/-- An entry that the parser or the matcher has put in the place of an instruction. -/
theorem entryFits_pseudo {entry : RiscInstr} {mnem : RiscMnem} (hmnem : entry.mnem = mnem)
    (hcore : coreEmitter mnem = none) (hskip : skipCond mnem = none) (hjal : mnem ≠ .jal)
    (hjalr : mnem ≠ .jalr) (hstop : entry.mnem ≠ .ebreak ∧ entry.mnem ≠ .fenceI)
    (hothers : dispatchInstr env entry = Emit.lift (env.others entry) →
      Takes Assembled maxDispatched (env.others entry)) : EntryFits env entry := by
  subst hmnem
  exact entryFits_plain (fun h => absurd hcore h) hjal hjalr hskip hstop hothers

end Entries

/-! ## Blocks -/

section Blocks

variable {env : Env} {starts : Finset RiscAddr} {a b c : RiscAddr} {instr : RiscInstr}
  {trace entries : List RiscInstr}

/-- Every instruction of a trace was read after those before it. -/
theorem Trace.split (h : Trace env b trace c) : ∀ instr ∈ trace, ∃ pre post,
    trace = pre ++ instr :: post ∧ Trace env b pre instr.addr ∧
      fetched env instr.addr = some instr ∧ staticNext env.flags instr ≠ none := by
  induction h with
  | nil a => exact fun _ hmem => absurd hmem List.not_mem_nil
  | @cons a b c first trace hfetch haddr hnext _ ih =>
      intro instr hmem
      rcases List.mem_cons.1 hmem with rfl | hmem
      · refine ⟨[], trace, rfl, ?_, ?_, by rw [hnext]; nofun⟩
        · rw [haddr]
          exact .nil a
        · rwa [haddr]
      · obtain ⟨pre, post, rfl, hpre, hfetch', hnext'⟩ := ih instr hmem
        exact ⟨first :: pre, post, rfl, .cons hfetch haddr hnext hpre, hfetch', hnext'⟩

/-- An instruction of a block but the last one was read with room for two entries. -/
theorem Trace.parses (h : Trace env b trace c)
    (hlen : (entriesOf trace).length + 1 ≤ blockCacheSize env) :
    ∀ instr ∈ trace, isFence instr = false → ∃ pre, Parses env b pre instr.addr ∧
      fetched env instr.addr = some instr ∧ staticNext env.flags instr ≠ none := by
  intro instr hmem hfence
  obtain ⟨pre, post, rfl, hpre, hfetch, hnext⟩ := h.split instr hmem
  refine ⟨pre, ⟨hpre, ?_⟩, hfetch, hnext⟩
  have hsplit : entriesOf (pre ++ instr :: post) =
      entriesOf pre ++ rewritten instr :: entriesOf post := by
    simp [entriesOf, hfence]
  rw [hsplit, List.length_append, List.length_cons] at hlen
  omega

/-- The entry of an instruction that the block continues after fits. -/
theorem entryFits_rewritten (hfetch : fetched env c = some instr) (hexits : ExitsFit instr)
    (hjalr : instr.mnem ≠ .jalr)
    (hstop : (rewritten instr).mnem ≠ .ebreak ∧ (rewritten instr).mnem ≠ .fenceI)
    (hothers : dispatchInstr env (rewritten instr) = Emit.lift (env.others (rewritten instr)) →
      Takes Assembled maxDispatched (env.others (rewritten instr))) :
    EntryFits env (rewritten instr) := by
  by_cases hjal : instr.mnem = .jal
  · have hauipc : rewritten instr = ⟨instr.addr, .auipc, .immediate, x0, x0, x0, 4#64⟩ := by
      unfold rewritten
      rw [hjal]
    rw [hauipc] at hstop hothers ⊢
    exact entryFits_plain (fun _ => (by decide : x0 < 32)) nofun nofun rfl hstop hothers
  · rcases rewritten_own hjal with hown | hcsr
    · rw [hown] at hstop hothers ⊢
      exact entryFits_own hfetch hexits hjalr hstop hothers
    · exact entryFits_pseudo hcsr rfl rfl nofun nofun hstop hothers

/-- A `JALR` fits with the hint that the parser leaves in it, if the instruction before a marked
one can be parsed again. -/
theorem entryFits_jalr (hfetch : fetched env c = some instr) (hexits : ExitsFit instr)
    (hjalr : instr.mnem = .jalr) {hint : Nat} (hbefore : hint = 1 → BeforeParsed env instr)
    (hothers : dispatchInstr env { instr with regSrc2 := hint } =
        Emit.lift (env.others { instr with regSrc2 := hint }) →
      Takes Assembled maxDispatched (env.others { instr with regSrc2 := hint })) :
    EntryFits env { instr with regSrc2 := hint } := by
  obtain ⟨n, hparse⟩ := fetched_parsed hfetch
  have hjump := optype_of_controlType (fetched_sound hfetch).2 (by rw [hjalr]; rfl)
  have himm := ((Parser.parseInstruction_registerOperands _ _ _ hparse).jalr hjump hjalr).2
  have hmnem : ({ instr with regSrc2 := hint } : RiscInstr).mnem = .jalr := hjalr
  refine ⟨?_, fun hcore => ?_, fun hjal => ?_, fun _ => ⟨himm, hexits.link hjalr, hbefore⟩,
    fun hskip => ?_, hothers⟩
  · rw [hmnem]
    exact ⟨nofun, nofun⟩
  · exact absurd (by rw [hmnem]; rfl) hcore
  · exact absurd (hmnem.symm.trans hjal) nofun
  · exact absurd (by rw [hmnem]; rfl) hskip

/-- The last entry of a block that is translated ahead fits. -/
theorem Harmless.endFits (h : Harmless env starts a) (hahead : Ahead env a b)
    (hparses : Parses env b trace c) (hfetch : fetched env c = some instr) (haddr : instr.addr = c)
    (hstop : (rewrittenEnd env.flags (entriesOf trace).getLast? instr).mnem ≠ .ebreak ∧
      (rewrittenEnd env.flags (entriesOf trace).getLast? instr).mnem ≠ .fenceI)
    (hothers : dispatchInstr env (rewrittenEnd env.flags (entriesOf trace).getLast? instr) =
        Emit.lift (env.others (rewrittenEnd env.flags (entriesOf trace).getLast? instr)) →
      Takes Assembled maxDispatched
        (env.others (rewrittenEnd env.flags (entriesOf trace).getLast? instr))) :
    EntryFits env (rewrittenEnd env.flags (entriesOf trace).getLast? instr) := by
  have hexits := h.exits _ _ (.parsed hahead hparses) hfetch
  by_cases hebreak : instr.mnem = .ebreak
  · have hinvalid : (rewrittenEnd env.flags (entriesOf trace).getLast? instr).mnem =
        .invalidMnem := by
      unfold rewrittenEnd
      rw [hebreak]
    exact entryFits_pseudo hinvalid rfl rfl nofun nofun hstop hothers
  · by_cases hjalr : instr.mnem = .jalr
    · rw [rewrittenEnd_jalr _ hjalr] at hothers ⊢
      refine entryFits_jalr hfetch hexits hjalr (fun hhint => ?_) hothers
      have hbefore := h.parsed (.before hahead hparses hfetch hjalr hhint)
      unfold BeforeParsed
      rwa [haddr]
    · rw [rewrittenEnd_own _ hebreak hjalr] at hstop hothers ⊢
      exact entryFits_own hfetch hexits hjalr hstop hothers

/-- What the parser returns for a block that is translated ahead fits. -/
theorem Harmless.entryFits (h : Harmless env starts a) (hahead : Ahead env a b)
    (hread : ReadBlock env (blockCacheSize env) b entries) {entry : RiscInstr}
    (hmem : entry ∈ entries)
    (hothers : dispatchInstr env entry = Emit.lift (env.others entry) →
      Takes Assembled maxDispatched (env.others entry)) : EntryFits env entry := by
  have hstop := isBlock_dispatched hread.isBlock entry hmem
  obtain ⟨trace, c, last, htrace, rfl, hend, hlen, hroom⟩ := hread
  rw [List.length_append, List.length_singleton] at hlen
  rcases List.mem_append.1 hmem with hmem | hmem
  · -- an instruction that the block continues after
    obtain ⟨instr, hinstr, rfl⟩ := List.mem_map.1 hmem
    obtain ⟨hinstr, hfence⟩ := List.mem_filter.1 hinstr
    obtain ⟨pre, hparses, hfetch, hnext⟩ := htrace.parses hlen instr hinstr (by simpa using hfence)
    obtain ⟨next, hnext⟩ := Option.ne_none_iff_exists'.1 hnext
    obtain ⟨-, -, hjalr, -, -⟩ := staticNext_some hnext
    exact entryFits_rewritten hfetch (h.exits _ _ (.parsed hahead hparses) hfetch) hjalr hstop
      hothers
  · obtain rfl := List.mem_singleton.1 hmem
    rcases hroom with rfl | hroom
    · exact entryFits_pseudo rfl rfl rfl nofun nofun hstop hothers
    · cases hend with
      | cutOff _ => exact entryFits_pseudo rfl rfl rfl nofun nofun hstop hothers
      | terminator hfetch haddr hnext =>
          exact h.endFits hahead ⟨htrace, hroom⟩ hfetch haddr hstop hothers

/-- What is dispatched for a block that is translated ahead fits. -/
theorem Harmless.optimizedFits (h : Harmless env starts a) (hmatcher : MatchesPatterns env)
    (hahead : Ahead env a b) (hread : ReadBlock env (blockCacheSize env) b entries) :
    ∀ entry ∈ optimized env entries, EntryFits env entry := by
  intro entry hmem
  have hothers := h.others b entries hahead hread entry hmem
  have hstop := optimized_dispatched hmatcher hread.isBlock entry hmem
  rcases (optimized_entries hmatcher (isBlock_parsed hread.isBlock)).1 entry hmem with
    hown | hown | hown
  · exact h.entryFits hahead hread hown hothers
  · exact entryFits_pseudo hown rfl rfl nofun nofun hstop hothers
  · exact entryFits_pseudo hown rfl rfl nofun nofun hstop hothers

end Blocks

/-! ## The recursion -/

/-- The instruction memory has room for a block for each address of `starts` that the cache does
not know, and for `k` more. -/
def Budget (starts : Finset RiscAddr) (k : Nat) (t : TransState) : Prop :=
  ∃ f, Inv t.cache f ∧ CodeOrMark f ∧ instrMemBase ≤ t.currentPos.toNat ∧
    RoomFor ((starts.filter fun x => f x = none).card + k) t

/-- A translation of blocks that uses the room for one of them, and has no other reason to stop
than the fuel of the model. -/
def Spends (starts : Finset RiscAddr) (tb : RiscAddr → Trans CacheLoc) (a : RiscAddr) : Prop :=
  ∀ k, Spec (Budget starts (k + 1)) (tb a) (fun loc t => Budget starts k t ∧ InInstrMem loc)
    (· = .outOfFuel)

section Recursion

variable {env : Env} {starts : Finset RiscAddr} {a b target : RiscAddr} {k : Nat}
  {tb : RiscAddr → Trans CacheLoc} {f : RiscAddr → Option CacheLoc}

theorem CodeOrMark.update (hf : CodeOrMark f) {loc : CacheLoc}
    (hloc : loc = translationStarted ∨ InInstrMem loc) :
    CodeOrMark (Function.update f a (some loc)) := by
  intro x loc' hx
  by_cases hxa : x = a
  · subst hxa
    rw [Function.update_self] at hx
    obtain rfl := Option.some.inj hx
    exact hloc
  · rw [Function.update_of_ne hxa] at hx
    exact hf x loc' hx

theorem lookupCacheEntry_budget (a : RiscAddr) :
    Spec (Budget starts k) (Trans.lookupCacheEntry a)
      (fun loc t => Budget starts k t ∧ (loc = unseenCode → ∃ f, Inv t.cache f ∧ CodeOrMark f ∧
        instrMemBase ≤ t.currentPos.toNat ∧ f a = none ∧
        RoomFor ((starts.filter fun x => f x = none).card + k) t)) (· = .outOfFuel) := by
  rintro t ⟨f, hinv, hf, hlow, hroom⟩
  obtain ⟨c', hlookup, hcache⟩ := hinv.lookupCacheEntry a
  unfold Trans.lookupCacheEntry
  rw [hlookup]
  refine ⟨fun loc t' h => ?_, fun e h => absurd h nofun⟩
  obtain ⟨rfl, rfl⟩ := Prod.mk.inj (Except.ok.inj h)
  refine ⟨⟨f, hcache, hf, hlow, hroom⟩, fun hunseen => ⟨f, hcache, hf, hlow, ?_, hroom⟩⟩
  cases hfa : f a with
  | none => rfl
  | some loc =>
      rw [hfa] at hunseen
      exact absurd hunseen (hinv.table.ne_unseen hfa)

/-- A mark on an address of `starts` that the cache did not know leaves room for its block. -/
theorem setCacheEntry_spend (hstart : target ∈ starts) :
    Spec (fun t => ∃ f, Inv t.cache f ∧ CodeOrMark f ∧ instrMemBase ≤ t.currentPos.toNat ∧
        f target = none ∧ RoomFor ((starts.filter fun x => f x = none).card + k) t)
      (Trans.setCacheEntry target translationStarted) (fun _ => Budget starts (k + 1))
      (· = .outOfFuel) := by
  rintro t ⟨f, hinv, hf, hlow, hnone, hroom⟩
  obtain ⟨c', hset, hcache⟩ := hinv.setCacheEntry target translationStarted_ne_unseen
  unfold Trans.setCacheEntry
  rw [hset]
  refine ⟨fun _ t' h => ?_, fun e h => absurd h nofun⟩
  obtain ⟨-, rfl⟩ := Prod.mk.inj (Except.ok.inj h)
  refine ⟨_, hcache, hf.update (.inl rfl), hlow, ?_⟩
  have hmem : target ∈ starts.filter fun x => f x = none :=
    Finset.mem_filter.2 ⟨hstart, hnone⟩
  have hcard := Finset.card_le_card (@unknown_update_subset starts f target translationStarted)
  rw [Finset.card_erase_of_mem hmem] at hcard
  have hpos := Finset.card_pos.2 ⟨target, hmem⟩
  have hblocks := Nat.mul_le_mul_left maxBlock
    (show (starts.filter fun x =>
      Function.update f target (some translationStarted) x = none).card + (k + 1) ≤
        (starts.filter fun x => f x = none).card + k by omega)
  unfold RoomFor at hroom ⊢
  dsimp only
  omega

theorem setCacheEntry_budget (a : RiscAddr) {loc : CacheLoc} (hloc : InInstrMem loc) :
    Spec (Budget starts k) (Trans.setCacheEntry a loc) (fun _ => Budget starts k)
      (· = .outOfFuel) := by
  rintro t ⟨f, hinv, hf, hlow, hroom⟩
  obtain ⟨c', hset, hcache⟩ := hinv.setCacheEntry a hloc.ne_unseen
  unfold Trans.setCacheEntry
  rw [hset]
  refine ⟨fun _ t' h => ?_, fun e h => absurd h nofun⟩
  obtain ⟨-, rfl⟩ := Prod.mk.inj (Except.ok.inj h)
  refine ⟨_, hcache, hf.update (.inr hloc), hlow, ?_⟩
  have hcard := Finset.card_le_card ((@unknown_update_subset starts f a loc).trans
    (Finset.erase_subset _ _))
  have hblocks := Nat.mul_le_mul_left maxBlock (Nat.add_le_add_right hcard k)
  unfold RoomFor at hroom ⊢
  dsimp only
  omega

theorem translateTarget_budget (hstart : target ∈ starts) (htb : Spends starts tb target) :
    Spec (Budget starts k) (translateTarget tb target) (fun _ => Budget starts k)
      (· = .outOfFuel) := by
  refine Spec.bind (lookupCacheEntry_budget target) fun loc => Spec.ite (fun hunseen => ?_)
    fun _ => Spec.ret fun _ h => h.1
  have hnew : Spec (fun t => ∃ f, Inv t.cache f ∧ CodeOrMark f ∧
      instrMemBase ≤ t.currentPos.toNat ∧ f target = none ∧
      RoomFor ((starts.filter fun x => f x = none).card + k) t) (translateUnseen tb target)
      (fun _ => Budget starts k) (· = .outOfFuel) := by
    refine Spec.bind (setCacheEntry_spend hstart) fun _ => ?_
    refine Spec.bind (htb k) fun loc' => Spec.of_fact fun hloc => ?_
    exact setCacheEntry_budget target hloc
  exact hnew.conseq (fun t h => h.2 hunseen) fun _ _ h => h

theorem parseLoop_budget (h : Harmless env starts a) (hahead : Ahead env a b)
    (htb : ∀ x, Ahead env a x → Spends starts tb x) (fuel : Nat) {s : ParseState}
    (hinv : LoopInv env (blockCacheSize env) b s) :
    Spec (Budget starts k) (parseLoop env tb (blockCacheSize env) fuel s)
      (fun _ => Budget starts k) (· = .outOfFuel) := by
  induction fuel generalizing s with
  | zero => exact Spec.fail rfl
  | succ fuel ih =>
      unfold parseLoop
      refine Spec.ite (fun hroom => ?_) fun _ => Spec.ret fun _ h => h
      obtain ⟨trace, htrace, hentries⟩ := hinv.trace
      have hparses : Parses env b trace s.riscAddr := by
        refine ⟨htrace, ?_⟩
        rw [← hentries, hinv.length]
        exact hroom
      have hstep : Spec (Budget starts k) (parseStep env tb s) (fun _ => Budget starts k)
          (· = .outOfFuel) := by
        refine parseStep_spec s (parseAt_parsed (h.parsed (.parsed hahead hparses)))
          fun instr hfetch target htarget => ?_
        rw [ParseState.before_eq hinv.counted, hentries] at htarget
        have hnext := hahead.target hparses hfetch htarget
        exact translateTarget_budget (h.starts _ hnext) (htb _ hnext)
      refine Spec.bind (parseStep_stepOf hstep) fun step => Spec.of_fact ?_
      rintro ⟨instr, hfetch, hof⟩
      cases step with
      | next s' => exact ih (hinv.next hroom hfetch hof)
      | done s' => exact Spec.ret fun _ h => h

theorem translateBlock_budget (h : Harmless env starts a) (hmatcher : MatchesPatterns env)
    (fuel : Nat) : ∀ b, Ahead env a b → Spends starts (translateBlock env fuel) b := by
  induction fuel with
  | zero => exact fun b _ k => Spec.fail rfl
  | succ fuel ih =>
      intro b hahead k
      have hmax := two_le_blockCacheSize env
      -- parsing spends what its own calls for return addresses spend
      have hparse : Spec (Budget starts (k + 1))
          (parseBlock env (translateBlock env fuel) (blockCacheSize env) (fuel + 1) b)
          (fun entries t => Budget starts (k + 1) t ∧
            ReadBlock env (blockCacheSize env) b entries) (· = .outOfFuel) := by
        have hloop : Spec (Budget starts (k + 1))
            (parseBlock env (translateBlock env fuel) (blockCacheSize env) (fuel + 1) b)
            (fun _ => Budget starts (k + 1)) (· = .outOfFuel) :=
          (parseLoop_budget h hahead ih (fuel + 1) (loopInv_init hmax)).bind fun _ =>
            Spec.ret fun _ h => h
        intro t ht
        refine ⟨fun entries t' hrun => ⟨(hloop t ht).1 entries t' hrun, ?_⟩, (hloop t ht).2⟩
        obtain ⟨s', t₁, hrun', hret⟩ := bind_ok hrun
        obtain ⟨rfl, -⟩ := pure_ok hret
        exact parseLoop_ok (loopInv_init hmax) hrun'
      refine Spec.bind hparse fun entries => Spec.of_fact fun hread => ?_
      -- then the block takes one of the `k + 1` shares of the room
      have hblock : Spec (Budget starts (k + 1)) (translateBlockInstructions env entries)
          (fun block t => Budget starts k t ∧ InInstrMem block.head) (· = .outOfFuel) := by
        rintro t ⟨f, hinv, hf, hlow, hroom⟩
        have hlen : (optimized env entries).length ≤ 64 := by
          rw [(optimized_entries hmatcher (isBlock_parsed hread.isBlock)).2]
          obtain ⟨-, -, -, -, -, -, hlen, -⟩ := hread
          unfold blockCacheSize at hlen
          split at hlen <;> omega
        have hroom' : t.currentPos.toNat + 15 *
            (maxBlock + maxBlock * ((starts.filter fun x => f x = none).card + k)) ≤
              translatorBase := by
          unfold RoomFor at hroom
          rwa [← Nat.add_assoc, Nat.mul_succ, Nat.add_comm (maxBlock * _) maxBlock] at hroom
        obtain ⟨block, t', hrun, hhead, hcache, hlow', hleft⟩ := translateBlockInstructions_fits hf
          (h.optimizedFits hmatcher hahead hread) hlen hinv hlow hroom'
        rw [hrun]
        refine ⟨fun block' t₁ hok => ?_, fun e herr => absurd herr nofun⟩
        obtain ⟨rfl, rfl⟩ := Prod.mk.inj (Except.ok.inj hok)
        exact ⟨⟨f, hcache, hf, hlow', hleft⟩, hhead⟩
      refine hblock.bind fun block => ?_
      rintro t ⟨⟨f, hbudget⟩, hhead⟩
      refine ⟨fun loc t' hok => ?_, fun e herr => absurd herr nofun⟩
      obtain ⟨rfl, rfl⟩ := Prod.mk.inj (Except.ok.inj hok)
      exact ⟨⟨f, hbudget⟩, hhead⟩

/-- The translation of harmless code between two blocks returns, where the instruction memory has
room for a block for each address that is translated. -/
theorem Harmless.translateBlock_ok (h : Harmless env starts a) (hmatcher : MatchesPatterns env)
    {M : Finset RiscAddr} (hM : FinitelyMapped env M) {t : TransState} (ht : Unmarked env t)
    (hroom : RoomFor (starts.card + 1) t) :
    ∃ n, ∀ fuel, n ≤ fuel → ∃ loc t', translateBlock env fuel a t = .ok (loc, t') := by
  obtain ⟨f, hinv⟩ := ht
  have hfinished : CodeOrMark f := by
    intro x loc hx
    rcases hinv.entries x loc hx with ⟨hloc, -⟩ | hfinished
    · exact .inl hloc
    · exact .inr hfinished.1
  have hbudget : Budget starts 1 t := by
    refine ⟨f, hinv.cache, hfinished, hinv.pos.1, ?_⟩
    have hblocks := Nat.mul_le_mul_left maxBlock
      (Nat.add_le_add_right (Finset.card_filter_le starts fun x => f x = none) 1)
    unfold RoomFor at hroom ⊢
    omega
  refine ⟨M.card + loopFuel env + 1, fun fuel hfuel => ?_⟩
  have hstop := (translateBlock_budget h hmatcher fuel a .start 0 t hbudget).2
  have htotal := (translateBlock_total hM M.card fuel hfuel a t
    ⟨f, hinv.cache, hinv.pos, Finset.card_filter_le _ _⟩).2
  cases hrun : translateBlock env fuel a t with
  | error e => exact absurd (hstop e hrun) (htotal e hrun)
  | ok r => exact ⟨r.1, r.2, rfl⟩

end Recursion

/-! ## Words that are no instructions -/

/-- A word that is no instruction is rejected if and only if its fields are ones the parser
refuses. Where every word of the code is an instruction or refused, a translation with all that
it translates ahead stops only at an unmapped address, at the end of the instruction memory or in
the assembler; and where it reads harmless code, it has rejected every word that is no
instruction and returns. -/
theorem rejected_iff (env : Env) (instr : RiscInstr) (w : BitVec 32)
    (hword : env.mem instr.addr = some w) :
    ((¬ IsInstruction w → Rejected (Parser.parseInstruction env.flags env.mem instr)) ↔
      IsInstruction w ∨ Refused w) ∧
    (MatchesPatterns env →
      (Readable env.mem → ∀ fuel a t e,
        translateBlock env fuel a t = .error e → StopLeft env e) ∧
      ∀ starts M a t, Harmless env starts a → FinitelyMapped env M → Unmarked env t →
        RoomFor (starts.card + 1) t →
        (∀ c w, Reads env a c → env.mem c = some w → ¬ IsInstruction w →
          Rejected (Parser.parseInstruction env.flags env.mem (.ofAddr c))) ∧
        ∃ n, ∀ fuel, n ≤ fuel → ∃ loc t', translateBlock env fuel a t = .ok (loc, t')) := by
  have hparse : ∀ (instr : RiscInstr) (w : BitVec 32), env.mem instr.addr = some w →
      (Rejected (Parser.parseInstruction env.flags env.mem instr) ↔ Refused w) := by
    intro instr w hword
    unfold Parser.parseInstruction
    rw [hword]
    exact rejected_parseOpcode env.flags w _
  refine ⟨?_, fun hmatcher => ⟨fun hmem fuel a t e herr => ?_,
    fun starts M a t h hM ht hroom => ⟨?_, ?_⟩⟩⟩
  · rw [hparse instr w hword]
    exact ⟨fun h => or_iff_not_imp_left.2 h, or_iff_not_imp_left.1⟩
  · exact (translateBlock_quiet hmatcher hmem fuel a t trivial).2 e herr
  · intro c w hread hw hno
    obtain ⟨w', hw', hkind⟩ := h.words c hread
    obtain rfl := Option.some.inj (hw.symm.trans hw')
    exact (hparse (.ofAddr c) w hw).2 (hkind.resolve_left hno)
  · exact h.translateBlock_ok hmatcher hM ht hroom

/-- A call with a reserved word after it, and a system call at its target. -/
def reservedReturn : Env :=
  { Env.plain {} (CodeMem.ofWords 0x1000#64 [0x008000ef#32, 0x00007003#32, 0x00000073#32]) with
    optimizePatterns := matchedBlock }

/-- The call and what it translates ahead. -/
def reservedStarts : Finset RiscAddr := {0x1000#64, 0x1004#64, 0x1008#64}

section Reserved

variable {b c : RiscAddr} {trace : List RiscInstr} {instr : RiscInstr}

/-- What is parsed at the three addresses. -/
theorem fetched_reservedReturn (hb : b ∈ reservedStarts)
    (h : fetched reservedReturn b = some instr) :
    instr = ⟨0x1000#64, .jal, .jump, 33, 33, 1, 8#64⟩ ∨
      instr.optype = .invalidInstruction ∧ instr.mnem = .invalidMnem ∨
      instr.optype = .system ∧ instr.mnem = .ecall := by
  simp only [reservedStarts, Finset.mem_insert, Finset.mem_singleton] at hb
  rcases hb with rfl | rfl | rfl
  · exact .inl (Option.some.inj h).symm
  · obtain rfl := Option.some.inj h
    exact .inr (.inl ⟨rfl, rfl⟩)
  · obtain rfl := Option.some.inj h
    exact .inr (.inr ⟨rfl, rfl⟩)

/-- Each of the three blocks has one instruction. -/
theorem parses_reservedReturn (hb : b ∈ reservedStarts) (h : Trace reservedReturn b trace c) :
    trace = [] ∧ c = b := by
  cases h with
  | nil => exact ⟨rfl, rfl⟩
  | cons hfetch haddr hnext _ =>
      rcases fetched_reservedReturn hb hfetch with rfl | ⟨hoptype, hmnem⟩ | ⟨hoptype, hmnem⟩
      · cases hnext
      · unfold staticNext at hnext
        rw [hoptype] at hnext
        cases hnext
      · unfold staticNext at hnext
        rw [hoptype, hmnem] at hnext
        cases hnext

theorem ahead_reservedReturn (h : Ahead reservedReturn 0x1000#64 b) : b ∈ reservedStarts := by
  induction h with
  | start => decide
  | target _ hparses hfetch htarget ih =>
      obtain ⟨rfl, rfl⟩ := parses_reservedReturn ih hparses.1
      rcases fetched_reservedReturn ih hfetch with rfl | ⟨-, hmnem⟩ | ⟨-, hmnem⟩
      · change _ ∈ [0x1008#64, 0x1004#64] at htarget
        simp only [List.mem_cons, List.not_mem_nil, or_false] at htarget
        rcases htarget with rfl | rfl <;> decide
      · unfold targetsOf at htarget
        rw [hmnem] at htarget
        cases htarget
      · unfold targetsOf at htarget
        rw [hmnem] at htarget
        cases htarget

theorem reads_reservedReturn (h : Reads reservedReturn 0x1000#64 c) : c ∈ reservedStarts := by
  cases h with
  | parsed hahead hparses =>
      have hb := ahead_reservedReturn hahead
      obtain ⟨-, rfl⟩ := parses_reservedReturn hb hparses.1
      exact hb
  | before hahead hparses hfetch hmnem _ =>
      have hb := ahead_reservedReturn hahead
      obtain ⟨-, rfl⟩ := parses_reservedReturn hb hparses.1
      rcases fetched_reservedReturn hb hfetch with rfl | ⟨-, hother⟩ | ⟨-, hother⟩
      · cases hmnem
      · cases hmnem.symm.trans hother
      · cases hmnem.symm.trans hother

theorem harmless_reservedReturn : Harmless reservedReturn reservedStarts 0x1000#64 := by
  refine ⟨fun b => ahead_reservedReturn, fun c hread => ?_, fun c instr hread hfetch => ?_,
    fun b entries _ _ entry _ _ => ?_⟩
  · have hc := reads_reservedReturn hread
    simp only [reservedStarts, Finset.mem_insert, Finset.mem_singleton] at hc
    rcases hc with rfl | rfl | rfl
    · exact ⟨0x008000ef#32, rfl, .inl ⟨.jal 1 4, trivial, by decide⟩⟩
    · exact ⟨0x00007003#32, rfl, .inr (show ((0x00007003#32).extractLsb' 12 3).toNat = 7 from rfl)⟩
    · exact ⟨0x00000073#32, rfl, .inl ⟨.ecall, trivial, by decide⟩⟩
  · rcases fetched_reservedReturn (reads_reservedReturn hread) hfetch with rfl |
      ⟨hoptype, hmnem⟩ | ⟨hoptype, hmnem⟩
    · exact ⟨fun _ => by decide, nofun, nofun⟩
    · exact exitsFit_other (by rw [hmnem]; nofun) (by rw [hmnem]; nofun) (by rw [hoptype]; nofun)
    · exact exitsFit_other (by rw [hmnem]; nofun) (by rw [hmnem]; nofun) (by rw [hoptype]; nofun)
  · exact (Takes.ret ()).mono (Nat.zero_le _)

/-- The reserved word is rejected, and the block of the call is translated with those of the
reserved word and of the system call. -/
theorem rejected_iff_reserved :
    ((¬ IsInstruction 0x00007003#32 →
        Rejected (Parser.parseInstruction {} reservedReturn.mem (.ofAddr 0x1004#64))) ↔
      IsInstruction 0x00007003#32 ∨ Refused 0x00007003#32) ∧
    ∃ n, ∀ fuel, n ≤ fuel → ∃ loc t', translateBlock reservedReturn fuel 0x1000#64
      (.initial (BitVec.ofNat 64 instrMemBase)) = .ok (loc, t') := by
  obtain ⟨hparse, hrun⟩ := rejected_iff reservedReturn (.ofAddr 0x1004#64) 0x00007003#32 rfl
  have hmapped := finitelyMapped_ofWords {} 0x1000#64
    [0x008000ef#32, 0x00007003#32, 0x00000073#32] (by decide)
  exact ⟨hparse, ((hrun fun _ => rfl).2 reservedStarts _ 0x1000#64
    (.initial (BitVec.ofNat 64 instrMemBase)) harmless_reservedReturn
    ⟨hmapped.mapped, hmapped.leaves⟩ (unmarked_initial inInstrMem_base) (by decide)).2⟩

end Reserved

/-- The parser ends the run at a reserved word of `LOAD-FP`. -/
theorem parse_not_rejected :
    ¬ ∀ (flags : Flags) (mem : CodeMem) (instr : RiscInstr) (w : BitVec 32),
      mem instr.addr = some w → ¬ IsInstruction w →
        Rejected (Parser.parseInstruction flags mem instr) := by
  intro hall
  have hpanic : Parser.parseInstruction {} (fun _ => some 0x7#32) (.ofAddr 0x1000#64) =
      .error (.panic .failNotImpl) := by decide
  have hno : ¬ IsInstruction 0x7#32 := by
    rintro ⟨i, -, hi⟩
    obtain ⟨r, hparse, -⟩ :=
      parseInstruction_encode {} (fun _ => some 0x7#32) (.ofAddr 0x1000#64) i
        (congrArg some hi.symm)
    exact nomatch hpanic.symm.trans hparse
  have hrejected := hall {} (fun _ => some 0x7#32) (.ofAddr 0x1000#64) 0x7#32 rfl hno
  rw [hpanic] at hrejected
  exact not_rejected_error _ hrejected

end RiaJit.Translate
