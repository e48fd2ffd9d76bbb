import RiaJit.Gen.BranchTail
import RiaJit.Gen.ParseBlock

/-!
# Blocks are simulated up to their exits

The code of a block of a program that is supported here takes a host that holds the guest's
state at the block's address to one that holds the guest's state at the address where the
block is left, whatever jumps have been written over its stubs in the meantime.
-/

set_option autoImplicit false

namespace RiaJit.Translate

open EmitLogic X86 StateExcept Checkpoints

/-! ## Entries within a block -/

/-- The code at `a` has the effect `f` on the guest, whose registers lie as in `r` before the code
and as in `r'` behind it, and holds no stub. -/
structure Carries (enc : Encoder) (a : BitVec 64) (is : List FeInstr)
    (f : GuestState → GuestState) (r r' : RegisterInfo) : Prop where
  wf : r'.WellFormed
  stub : ∀ i ∈ is, i.stub = none
  run : ∀ g h, Represents x0 g r h → ∃ h', Passes enc a is h h' ∧ Represents x0 (f g) r' h' ∧
    Beside h h'

/-- The entry is translated to code that has the effect `f`, wherever it is emitted. -/
def Lifts (env : Env) (entry : RiscInstr) (f : GuestState → GuestState) : Prop :=
  ∀ s : EmitState, s.gen.rInfo.WellFormed →
    ∃ is r', Appends (dispatchInstr env entry) s () is ⟨r', s.gen.err⟩ ∧
      Carries env.enc (Emit.current env s) is f s.gen.rInfo r'

/-- The entries one after the other have the effect `f`. -/
inductive LiftsAll (env : Env) : List RiscInstr → (GuestState → GuestState) → Prop
  | nil : LiftsAll env [] id
  | cons {entry : RiscInstr} {entries : List RiscInstr} {f f' : GuestState → GuestState} :
      Lifts env entry f → LiftsAll env entries f' →
      LiftsAll env (entry :: entries) fun g => f' (f g)

section Carried

variable {enc : Encoder} {a : BitVec 64} {is js : List FeInstr} {f f' : GuestState → GuestState}
  {r r₁ r' : RegisterInfo}

theorem Carries.nil (hwf : r.WellFormed) : Carries enc a [] id r r := by
  refine ⟨hwf, fun i hi => absurd hi List.not_mem_nil, fun g h hrep => ?_⟩
  exact ⟨h, passes_runCode rfl, hrep, Beside.refl h⟩

theorem Carries.append (his : Carries enc a is f r r₁)
    (hjs : Carries enc (enc.after a is) js f' r₁ r') :
    Carries enc a (is ++ js) (fun g => f' (f g)) r r' := by
  refine ⟨hjs.wf, fun i hi => ?_, fun g h hrep => ?_⟩
  · rcases List.mem_append.1 hi with hi | hi
    · exact his.stub i hi
    · exact hjs.stub i hi
  · obtain ⟨h₁, hpass₁, hrep₁, hb₁⟩ := his.run g h hrep
    obtain ⟨h₂, hpass₂, hrep₂, hb₂⟩ := hjs.run _ h₁ hrep₁
    exact ⟨h₂, hpass₁.append hpass₂, hrep₂, hb₁.trans hb₂⟩

/-- Where the code is held, up to the jumps over the stubs around it, it has its effect. -/
theorem Carries.reaches (hc : Carries enc a is f r r') {code : CodeAt}
    {exit : Option Cond → BitVec 64 → Prop} (hlinked : HoldsLinked enc code exit a is)
    {g : GuestState} {h : HostState} (hrep : Represents x0 g r h) :
    ∃ h', enc.Reaches code ⟨a, h⟩ ⟨enc.after a is, h'⟩ ∧ Represents x0 (f g) r' h' ∧
      Beside h h' := by
  obtain ⟨h', hpass, hrep', hb⟩ := hc.run g h hrep
  exact ⟨h', hpass code (hlinked.holds hc.stub), hrep', hb⟩

/-- Code without jumps. -/
theorem Performs.carries {gen : Gen Unit} (hp : Performs gen f) (hwf : r.WellFormed) (e : Bool) :
    ∃ is r', gen ⟨r, e⟩ = ((), is, ⟨r', e⟩) ∧ ∀ enc a, Carries enc a is f r r' := by
  obtain ⟨is, r', hgen, hwf', hrun⟩ := hp.emission hwf e
  refine ⟨is, r', hgen, fun enc a => ⟨hwf', ?_, fun g h hrep => ?_⟩⟩
  · -- what runs from one host holds no stub
    obtain ⟨_, hcode, -⟩ := hrun _ ⟨fun _ => 0#64, none, fun _ => 0#64, fun _ => 0#8, []⟩
      (represents_self hwf _)
    exact stub_of_runCode hcode
  · obtain ⟨h', hcode, hrest⟩ := hrun g h hrep
    exact ⟨h', passes_runCode hcode, hrest⟩

end Carried

section Front

variable {env : Env}

theorem Performs.lifts {gen : Gen Unit} {f : GuestState → GuestState} (hp : Performs gen f)
    {entry : RiscInstr} (hdispatch : dispatchInstr env entry = Emit.lift gen) :
    Lifts env entry f := by
  intro s hwf
  obtain ⟨is, r', hgen, hcarries⟩ := hp.carries hwf s.gen.err
  refine ⟨is, r', ?_, hcarries env.enc _⟩
  rw [hdispatch]
  exact appends_lift hgen

theorem performs_boundary (flags : Flags) :
    Performs (onlyIf flags.verboseDisassembly boundary) id :=
  (simulates_nop.bind (simulates_nop.bind simulates_nop)).onlyIf.performs

/-- The code that an entry adds to its block. -/
theorem Lifts.addInstr {entry : RiscInstr} {f : GuestState → GuestState} (h : Lifts env entry f)
    (s : BlockState) (hwf : s.gen.rInfo.WellFormed) :
    ∃ code r', Translate.addInstr env entry s = .ok { s with
        block := { s.block with chunks := s.block.chunks ++ [(entry, code)] }
        gen := ⟨r', s.gen.err⟩ } ∧
      Carries env.enc (env.enc.after s.block.head s.block.body) code f s.gen.rInfo r' := by
  let e₀ : EmitState :=
    ⟨env.enc.after s.block.head s.block.body, [], s.gen, s.cache, s.block.garbled⟩
  obtain ⟨is, r₁, happ, hcarries⟩ := h e₀ hwf
  obtain ⟨js, r', hgen, hcarries'⟩ := (performs_boundary env.flags).carries hcarries.wf s.gen.err
  have hcurrent : Emit.current env e₀ = env.enc.after s.block.head s.block.body :=
    Encoder.after_nil ..
  rw [hcurrent] at hcarries
  refine ⟨is ++ js, r', ?_, hcarries.append (hcarries' env.enc _)⟩
  have htranslate : translateRiscInstr env entry e₀ = .ok ((), { e₀ with
      code := [] ++ (is ++ js), gen := ⟨r', s.gen.err⟩ }) :=
    happ.bind (appends_lift hgen)
  unfold Translate.addInstr
  show (translateRiscInstr env entry e₀).bind _ = _
  rw [htranslate]
  rfl

theorem LiftsAll.addInstrs {front : List RiscInstr} {f : GuestState → GuestState}
    (h : LiftsAll env front f) (s : BlockState) (hwf : s.gen.rInfo.WellFormed) :
    ∃ chunks r', Translate.addInstrs env front s = .ok { s with
        block := { s.block with chunks := s.block.chunks ++ chunks }
        gen := ⟨r', s.gen.err⟩ } ∧ chunks.map Prod.fst = front ∧
      Carries env.enc (env.enc.after s.block.head s.block.body) (chunks.flatMap Prod.snd) f
        s.gen.rInfo r' := by
  -- on the entries: the code of the first one is where the code of the others starts from
  induction h generalizing s with
  | nil =>
      refine ⟨[], s.gen.rInfo, ?_, rfl, Carries.nil hwf⟩
      rw [List.append_nil]
      rfl
  | @cons entry entries f f' hentry hentries ih =>
      obtain ⟨code, r₁, hadd, hcarries⟩ := hentry.addInstr s hwf
      let s₁ : BlockState := { s with
        block := { s.block with chunks := s.block.chunks ++ [(entry, code)] }
        gen := ⟨r₁, s.gen.err⟩ }
      obtain ⟨chunks, r₂, hrest, hfst, hcarries'⟩ := ih s₁ hcarries.wf
      have hbody : s₁.block.body = s.block.body ++ code := by
        simp [s₁, Block.body]
      refine ⟨(entry, code) :: chunks, r₂, ?_, ?_, ?_⟩
      · show (Translate.addInstr env entry s).bind _ = _
        rw [hadd]
        refine hrest.trans ?_
        rw [List.append_assoc]
        rfl
      · rw [List.map_cons, hfst]
      · rw [hbody, Encoder.after_append] at hcarries'
        exact hcarries.append hcarries'

theorem addInstrs_append (front : List RiscInstr) (rest : List RiscInstr) (s : BlockState) :
    addInstrs env (front ++ rest) s = (addInstrs env front s).bind (addInstrs env rest) := by
  induction front generalizing s with
  | nil => rfl
  | cons entry front ih =>
      show (addInstr env entry s).bind _ = ((addInstr env entry s).bind _).bind _
      cases addInstr env entry s with
      | error e => rfl
      | ok s' => exact ih s'

end Front

/-! ## Whole blocks -/

namespace Block

/-- The last entry of a block. -/
def last (b : Block) : Option RiscInstr := b.instrs.getLast?

end Block

/-- The block at guest address `a` leads on from every state of the guest that goes right there,
where its code is held up to jumps over its stubs to finished code of their targets. -/
def LeadsOn (env : Env) (program : Program) (ext : Extension)
    (finished : RiscAddr → CacheLoc → Prop) (a : RiscAddr) (b : Block) : Prop :=
  ∀ g, GoesRight program ext ⟨g, a⟩ → b.garbled = false ∧ ∃ last, b.last = some last ∧
    ∀ (fin : RiscAddr → CacheLoc → Prop) code h, (∀ a loc, finished a loc → fin a loc) →
      HoldsLinked env.enc code (fun cond loc => fin (exitTarget last cond) loc) b.head b.code →
      AtBoundary g h → (env.flags.translateOptChain = true → h.cell .chainEnd = 0#64) →
      Arrives (env.enc.step code) (fun m => ∃ c, GuestRuns program ext ⟨g, a⟩ c ∧
        (last.mnem ≠ .ecall → GuestAdvances program ext ⟨g, a⟩ c) ∧
        Leaves env program fin code last (StubIn env.enc b.head b.code) c h m) ⟨b.head, h⟩

section Whole

variable {env : Env} {program : Program} {finished : RiscAddr → CacheLoc → Prop}

theorem StubIn.append {enc : Encoder} {start stub : BitVec 64} {cond : Option Cond}
    {pre is post : List FeInstr} (h : StubIn enc (enc.after start pre) is stub cond) :
    StubIn enc start (pre ++ (is ++ post)) stub cond := by
  obtain ⟨before, i, after, rfl, rfl, hi⟩ := h
  refine ⟨pre ++ before, i, after ++ post, ?_, ?_, hi⟩
  · simp only [List.append_assoc, List.cons_append]
  · rw [Encoder.after_append]

/-- More stubs may be noted. -/
theorem Leaves.mono {fin : RiscAddr → CacheLoc → Prop} {code : CodeAt} {entry : RiscInstr}
    {stubs stubs' : BitVec 64 → Option Cond → Prop} {c : GuestAt} {h₀ h₁ : HostState} {m : Cpu}
    (h : Leaves env program fin code entry stubs c h₁ m)
    (hstubs : ∀ a cond, stubs a cond → stubs' a cond) (hkept : Kept h₀ h₁)
    (hend : h₁.cell .chainEnd = h₀.cell .chainEnd) :
    Leaves env program fin code entry stubs' c h₀ m := by
  refine ⟨h.boundary, hkept.trans h.kept, ?_⟩
  cases h.way with
  | jump hmnem hfin hsame => exact .jump hmnem hfin (hsame.trans hend)
  | call hat hheld => exact .call hat hheld
  | finish hmnem hret hpc hnoted =>
      refine .finish hmnem hret hpc fun hchain => ?_
      rcases hnoted hchain with hzero | ⟨cond, hstub, hrest⟩
      · exact .inl hzero
      · exact .inr ⟨cond, hstubs _ _ hstub, hrest⟩

/-- A block is its prologue, its entries and its end. -/
theorem translateBlockInstructions_ok (hfusion : env.flags.translateOptFusion = false)
    {entries : List RiscInstr} {t t' : TransState} {block : Block}
    (h : translateBlockInstructions env entries t = .ok (block, t')) :
    ∃ b, addInstrs env entries (initBlock env t) = .ok b ∧
      block = { b.block with
        epilogue := (blockEnd env (endsInEcall entries) b.gen).2.1 ++ alignment (env.enc.after
          b.block.head (b.block.body ++ (blockEnd env (endsInEcall entries) b.gen).2.1)) } ∧
      (blockEnd env (endsInEcall entries) b.gen).2.2.err = false ∧
      block.head.toNat + env.enc.codeSize block.code ≤ translatorBase ∧
      t'.rInfo = cleared b.gen.rInfo ∧ t'.blocks = t.blocks ∧
      t'.currentPos = env.enc.after block.head block.code := by
  -- without fusion the entries are translated as they are
  have hopt : optimized env entries = entries := by
    unfold optimized
    rw [hfusion]
    rfl
  have hunfold : translateBlockInstructions env entries t =
      (addInstrs env (optimized env entries) (initBlock env t)).bind fun b =>
        (finalizeBlock env (endsInEcall (optimized env entries)) b).bind fun r =>
          .ok (r.1, { t with
            cache := r.2.cache
            currentPos := env.enc.after r.1.head r.1.code
            rInfo := r.2.gen.rInfo }) := rfl
  rw [hunfold, hopt] at h
  cases hadd : addInstrs env entries (initBlock env t) with
  | error e =>
      rw [hadd] at h
      cases h
  | ok b =>
      rw [hadd] at h
      refine ⟨b, rfl, ?_⟩
      cases hfin : finalizeBlock env (endsInEcall entries) b with
      | error e =>
          have hstop : (finalizeBlock env (endsInEcall entries) b).bind _ = _ := h
          rw [hfin] at hstop
          cases hstop
      | ok r =>
          have hret : (finalizeBlock env (endsInEcall entries) b).bind _ = _ := h
          rw [hfin] at hret
          obtain ⟨rfl, rfl⟩ := Prod.mk.inj (Except.ok.inj hret)
          -- the two ways out of `finalize_block` before the end: no room, and an encoder error
          unfold finalizeBlock at hfin
          dsimp only at hfin
          split at hfin
          · cases hfin
          · rename_i hsize
            split at hfin
            · cases hfin
            · rename_i herr
              obtain rfl := Except.ok.inj hfin
              exact ⟨rfl, Bool.eq_false_iff.2 herr, Nat.not_lt.1 hsize, blockEnd_rInfo _ _, rfl,
                rfl⟩

/-- The prologue of a block leaves the guest alone. -/
theorem initBlock_emission (env : Env) {t : TransState} (hwf : t.rInfo.WellFormed) :
    ∃ prologue r', initBlock env t =
        ⟨⟨t.currentPos, prologue, [], [], false⟩, ⟨r', false⟩, t.cache⟩ ∧
      ∀ enc a, Carries enc a prologue id t.rInfo r' := by
  have hprologue : Simulates (do
      onlyIf (¬ env.flags.ndebug) (feEnc64 .nop)
      invalidateAllReplacements) id :=
    simulates_nop.onlyIf.bind simulates_invalidateAll
  obtain ⟨prologue, r', hgen, hcarries⟩ := hprologue.performs.carries hwf false
  refine ⟨prologue, r', ?_, hcarries⟩
  unfold initBlock
  dsimp only
  rw [hgen]

theorem endsInEcall_append (front : List RiscInstr) (last : RiscInstr) :
    endsInEcall (front ++ [last]) = decide (last.mnem = .ecall) := by
  unfold endsInEcall
  rw [List.getLast?_append]
  simp

/-- The last entry is translated behind the code of the others. -/
theorem LiftsAll.lastEntry {front : List RiscInstr} {last : RiscInstr}
    {F : GuestState → GuestState} (hfront : LiftsAll env front F) {s b : BlockState}
    (hwf : s.gen.rInfo.WellFormed) (hadd : Translate.addInstrs env (front ++ [last]) s = .ok b) :
    ∃ chunks r' e₁,
      Carries env.enc (env.enc.after s.block.head s.block.body) (chunks.flatMap Prod.snd) F
        s.gen.rInfo r' ∧
      translateRiscInstr env last ⟨env.enc.after s.block.head
        (s.block.body ++ chunks.flatMap Prod.snd), [], ⟨r', s.gen.err⟩, s.cache,
        s.block.garbled⟩ = .ok ((), e₁) ∧
      b = ⟨{ s.block with
        chunks := s.block.chunks ++ chunks ++ [(last, e₁.code)], garbled := e₁.garbled },
        e₁.gen, e₁.cache⟩ := by
  obtain ⟨chunks, r', hchunks, -, hcarries⟩ := hfront.addInstrs s hwf
  rw [addInstrs_append, hchunks] at hadd
  have hbody : s.block.body ++ chunks.flatMap Prod.snd =
      Block.body { s.block with chunks := s.block.chunks ++ chunks } := by
    simp only [Block.body, List.flatMap_append, List.append_assoc]
  refine ⟨chunks, r', ?_⟩
  rw [hbody]
  -- the front has been added, what is left is the last entry
  have hlast : (addInstr env last { s with
      block := { s.block with chunks := s.block.chunks ++ chunks }
      gen := ⟨r', s.gen.err⟩ }).bind (Translate.addInstrs env []) = .ok b := hadd
  unfold addInstr at hlast
  dsimp only at hlast
  cases htranslate : translateRiscInstr env last _ with
  | error e =>
      rw [htranslate] at hlast
      cases hlast
  | ok r =>
      rw [htranslate] at hlast
      exact ⟨r.2, hcarries, rfl, (Except.ok.inj hlast).symm⟩

/-- A block whose last entry leads on leads on. -/
theorem translateBlockInstructions_leads (hfusion : env.flags.translateOptFusion = false)
    {front : List RiscInstr} {last : RiscInstr} {F : GuestState → GuestState}
    {follows : GuestState → GuestAt → Prop} {t t' : TransState} {block : Block}
    (hwf : t.rInfo.WellFormed) (hfront : LiftsAll env front F)
    (htail : ∀ e₀ : EmitState, e₀.code = [] → e₀.gen.rInfo.WellFormed → e₀.cache = t.cache →
      EmitsTail env program finished last follows e₀)
    (h : translateBlockInstructions env (front ++ [last]) t = .ok (block, t')) :
    block.garbled = false ∧ block.last = some last ∧
      ∀ (fin : RiscAddr → CacheLoc → Prop) code g h c, (∀ a loc, finished a loc → fin a loc) →
        HoldsLinked env.enc code (fun cond loc => fin (exitTarget last cond) loc) block.head
          block.code →
        Represents x0 g t.rInfo h → follows (F g) c →
        (env.flags.translateOptChain = true → h.cell .chainEnd = 0#64) →
        Arrives (env.enc.step code)
          (Leaves env program fin code last (StubIn env.enc block.head block.code) c h)
          ⟨block.head, h⟩ := by
  obtain ⟨b, hadd, rfl, herr, -, -⟩ := translateBlockInstructions_ok hfusion h
  obtain ⟨prologue, r₀, hinit, hcarries₀⟩ := initBlock_emission env hwf
  rw [hinit] at hadd
  have hcarries := hcarries₀ env.enc t.currentPos
  obtain ⟨chunks, r₁, e₁, hcarries₁, he₁, rfl⟩ := hfront.lastEntry hcarries.wf hadd
  have hbody : Block.body ⟨t.currentPos, prologue, [], [], false⟩ = prologue :=
    List.append_nil prologue
  rw [hbody] at hcarries₁ he₁
  rw [endsInEcall_append] at herr ⊢
  -- the entries before the last one are straight-line code; what the block does is up to its tail
  obtain ⟨hgarbled, htailOk⟩ := htail _ rfl hcarries₁.wf rfl e₁ he₁ herr
  refine ⟨hgarbled, ?_, fun fin code g h c hle hlinked hrep hfollows hchain => ?_⟩
  · show (([] ++ chunks ++ [(last, e₁.code)]).map Prod.fst).getLast? = _
    rw [List.map_append, List.getLast?_append]
    rfl
  · -- the code is that of the prologue, of the entries, of the end, and the padding
    let ending := (blockEnd env (decide (last.mnem = .ecall)) e₁.gen).2.1
    have hcode : ∀ padding, Block.code ⟨t.currentPos, prologue,
        [] ++ chunks ++ [(last, e₁.code)], ending ++ padding, e₁.garbled⟩ =
          (prologue ++ chunks.flatMap Prod.snd) ++ ((e₁.code ++ ending) ++ padding) := by
      intro padding
      simp only [Block.code, Block.body, List.flatMap_append, List.flatMap_cons, List.flatMap_nil,
        List.append_nil, List.nil_append, List.append_assoc]
    have hlinked' := hlinked
    dsimp only at hlinked' ⊢
    rw [hcode] at hlinked' ⊢
    obtain ⟨hheld, hheld'⟩ := allAt_append.1 hlinked'
    obtain ⟨hheld', -⟩ := allAt_append.1 hheld'
    obtain ⟨h', hreach, hrep', hbeside⟩ := (hcarries.append hcarries₁).reaches hheld hrep
    have hend : h'.cell .chainEnd = h.cell .chainEnd := hbeside.chainEnd
    refine .steps hreach ?_
    exact (htailOk fin code (F g) h' c hle hheld' hrep' hfollows
      fun hc => hend.trans (hchain hc)).mono fun m hm =>
        hm.mono (fun _ _ hstub => hstub.append) hbeside.kept hend

end Whole

/-! ## Blocks of a program -/

/-- What is asked of the settings, of the program and of the emitters that are not modelled:
no return stack and no macro fusion, `JALR` neither reads `x0` nor is marked for a direct jump
while blocks are chained, and the emitters of the extensions have the given effects. -/
structure Supported (env : Env) (ext : Extension) : Prop where
  ras : env.flags.translateOptRas = false
  fusion : env.flags.translateOptFusion = false
  jalr : ∀ a instr, fetched env a = some instr → instr.mnem = .jalr → instr.regSrc1 ≠ x0
  unmarked : env.flags.translateOptChain = true → ∀ a trace b instr, Trace env a trace b →
    fetched env b = some instr → instr.mnem = .jalr →
    chainHint env.flags (entriesOf trace).getLast? instr = 0
  others : ∀ a instr f, fetched env a = some instr → instr.mnem.format = none →
    ext instr = some f → Lifts env (rewritten instr) f

section Programs

variable {env : Env} {ext : Extension} {a b : RiscAddr} {instr : RiscInstr} {g : GuestState}
  {c : GuestAt}

theorem branchTaken_none (hbranch : skipCond instr.mnem = none) (x y : BitVec 64) :
    instr.branchTaken x y = none := by
  unfold RiscInstr.branchTaken
  split
  case h_7 => rfl
  all_goals
    rename_i hmnem
    rw [hmnem] at hbranch
    cases hbranch

/-- No instruction is executed at a system call or a fault. -/
theorem execute_running (hc : instr.execute ext g = some c) :
    instr.mnem ≠ .ecall ∧ instr.mnem ≠ .ebreak ∧ instr.mnem ≠ .invalidMnem := by
  refine ⟨fun hmnem => ?_, fun hmnem => ?_, fun hmnem => ?_⟩ <;>
  · unfold RiscInstr.execute at hc
    rw [hmnem] at hc
    cases hc

/-- An instruction that does not change the flow of control has an effect. -/
theorem execute_effect (hc : instr.execute ext g = some c) (hbranch : skipCond instr.mnem = none)
    (hjal : instr.mnem ≠ .jal) (hjalr : instr.mnem ≠ .jalr) :
    ∃ f, instr.effect ext = some f ∧
      ∀ g, instr.execute ext g = some ⟨f g, instr.addr + 4#64⟩ := by
  obtain ⟨hecall, hebreak, hinvalid⟩ := execute_running hc
  have hexec : ∀ g, instr.execute ext g =
      (instr.effect ext).map fun f => ⟨f g, instr.addr + 4#64⟩ := by
    intro g
    unfold RiscInstr.execute
    split
    case h_6 => rw [branchTaken_none hbranch]
    all_goals contradiction
  rw [hexec] at hc
  obtain ⟨f, hf, -⟩ := Option.map_eq_some_iff.1 hc
  refine ⟨f, hf, fun g => ?_⟩
  rw [hexec, hf]
  rfl

theorem execute_jal (hjal : instr.mnem = .jal) :
    instr.execute ext g =
      some ⟨g.write instr.regDest (instr.addr + 4#64), instr.addr + instr.imm⟩ := by
  unfold RiscInstr.execute
  rw [hjal]

theorem execute_jalr (hjalr : instr.mnem = .jalr) :
    instr.execute ext g =
      some ⟨g.write instr.regDest (instr.addr + 4#64), jalrAddr instr g⟩ := by
  unfold RiscInstr.execute
  rw [hjalr]

theorem execute_branch {cond : Cond} (hcond : skipCond instr.mnem = some cond) :
    instr.execute ext g = some ⟨g,
      if !cond.holds (cmpFlags (g.read instr.regSrc1) (g.read instr.regSrc2))
        then instr.addr + instr.imm else instr.addr + 4#64⟩ := by
  unfold RiscInstr.execute
  rw [branchTaken_skip hcond]
  split
  case h_6 => rfl
  all_goals
    rename_i hmnem
    rw [hmnem] at hcond
    cases hcond

/-- The optype of an instruction is the one that belongs to its mnemonic. -/
theorem optype_of_control (hclass : instr.Classified) {optype : RiscOptype}
    (h : instr.mnem.controlType = some optype) : instr.optype = optype := by
  have hsame := hclass.control.symm.trans h
  unfold RiscOptype.controlType at hsame
  split at hsame
  case h_5 => cases hsame
  all_goals
    rename_i hoptype
    exact hoptype.trans (Option.some.inj hsame)

theorem controlType_branch {mnem : RiscMnem} {cond : Cond} (h : skipCond mnem = some cond) :
    mnem.controlType = some .branch := by
  unfold skipCond at h
  split at h
  case h_7 => cases h
  all_goals rfl

/-- Instructions after which the block goes on are jumps that do not link, or go on behind
themselves. -/
theorem staticNext_cases (hclass : instr.Classified) (hnext : staticNext env.flags instr = some b) :
    (instr.mnem = .jal ∧ instr.regDest = x0 ∧ b = instr.addr + instr.imm) ∨
      (skipCond instr.mnem = none ∧ instr.mnem ≠ .jal ∧ instr.mnem ≠ .jalr ∧
        b = instr.addr + 4#64) := by
  obtain ⟨hvalid, hbranch, hjalr, hecall, hebreak⟩ := staticNext_some hnext
  by_cases hjal : instr.mnem = .jal
  · refine .inl ⟨hjal, ?_⟩
    have hoptype : instr.optype = .jump := optype_of_control hclass (by rw [hjal]; rfl)
    unfold staticNext at hnext
    rw [hoptype, hjal] at hnext
    dsimp only at hnext
    split at hnext
    · rename_i hflags
      exact ⟨hflags.2, (Option.some.inj hnext).symm⟩
    · cases hnext
  · refine .inr ⟨?_, hjal, hjalr, ?_⟩
    · cases hskip : skipCond instr.mnem with
      | none => rfl
      | some cond => exact absurd (optype_of_control hclass (controlType_branch hskip)) hbranch
    · have hplain : staticNext env.flags instr = _ :=
        staticNext_next hvalid hbranch hjal hjalr hecall hebreak
      exact Option.some.inj (hnext.symm.trans hplain)

/-- What the guest does at an instruction after which the block goes on, its entry does. -/
theorem Supported.front (hs : Supported env ext) (hfetch : fetched env a = some instr)
    (hnext : staticNext env.flags instr = some b) (hc : instr.execute ext g = some c) :
    ∃ f, (∀ g, instr.execute ext g = some ⟨f g, b⟩) ∧ (isFence instr = true → f = id) ∧
      (isFence instr = false → Lifts env (rewritten instr) f) := by
  obtain ⟨-, hclass⟩ := fetched_sound hfetch
  rcases staticNext_cases hclass hnext with ⟨hjal, hx0, rfl⟩ | ⟨hbranch, hjal, hjalr, rfl⟩
  · -- a jump that does not link: its entry is an `AUIPC` of `x0`, which emits nothing
    refine ⟨id, fun g => ?_, fun _ => rfl, fun _ => ?_⟩
    · rw [execute_jal hjal, hx0, write_x0]
      rfl
    · have hnothing : Performs (translateAUIPC env.flags (rewritten instr)) id := by
        rw [translateAUIPC_rewritten hjal]
        exact Simulates.ret.performs
      apply hnothing.lifts
      have hauipc : (rewritten instr).mnem = .auipc := by
        unfold rewritten
        rw [hjal]
      simp only [dispatchInstr, hauipc, coreEmitter]
  · -- any other instruction changes the registers and the memory by `f` and falls through
    obtain ⟨f, hf, hexec⟩ := execute_effect hc hbranch hjal hjalr
    refine ⟨f, hexec, fun hfence => ?_, fun hfence => ?_⟩
    · have hid : instr.effect ext = some id := by
        unfold RiscInstr.effect
        rcases of_decide_eq_true hfence with hmnem | hmnem
        · rw [hmnem]
        · rw [hmnem]
      exact Option.some.inj (hf.symm.trans hid)
    · obtain ⟨hne, hneI⟩ := not_or.1 (of_decide_eq_false hfence)
      have heffect : instr.effect ext =
          if instr.mnem.format ≠ none then some fun g => g.step instr else ext instr := by
        unfold RiscInstr.effect
        split
        · contradiction
        · contradiction
        · rfl
      rw [heffect] at hf
      split at hf
      · -- an instruction of the core, which `parse_block` leaves as it is
        rename_i hformat
        obtain rfl := Option.some.inj hf
        have hsame : rewritten instr = instr := by
          unfold rewritten
          split
          case h_8 => rfl
          all_goals
            rename_i hmnem
            rw [hmnem] at hformat
            exact absurd rfl hformat
        have hdecoded : instr.Decoded := by
          unfold fetched at hfetch
          split at hfetch
          · rename_i n instr' hparse
            obtain rfl := Option.some.inj hfetch
            exact Parser.parseInstruction_decoded env.flags env.mem a hparse hformat
          · cases hfetch
        obtain ⟨emitter, hem, hsim⟩ := simulates_coreEmitter env.flags hdecoded
        apply hsim.performs.lifts
        rw [hsame]
        unfold dispatchInstr
        rw [hem]
      · rename_i hformat
        exact hs.others a instr f hfetch (not_not.1 hformat) hf

/-- Along the straight line of a block the guest does what the entries do. -/
theorem Supported.trace (hs : Supported env ext) {trace : List RiscInstr}
    (htrace : Trace env a trace b) (hright : GoesRight (fetched env) ext ⟨g, a⟩) :
    ∃ F, LiftsAll env (entriesOf trace) F ∧ ∀ g, GoesRight (fetched env) ext ⟨g, a⟩ →
      GuestRuns (fetched env) ext ⟨g, a⟩ ⟨F g, b⟩ ∧
        (trace ≠ [] → GuestAdvances (fetched env) ext ⟨g, a⟩ ⟨F g, b⟩) := by
  -- on the trace; the guest goes right at each of its addresses, so each instruction has an effect
  induction htrace generalizing g with
  | nil a => exact ⟨id, .nil, fun g _ => ⟨.refl, fun h => absurd rfl h⟩⟩
  | @cons a b c instr instrs hfetch haddr hnext _ ih =>
      have hecall := (staticNext_some hnext).2.2.2.1
      obtain ⟨c', hc⟩ := hright.steps hfetch hecall
      obtain ⟨f, hexec, hfence, hlifts⟩ := hs.front hfetch hnext hc
      have hstep : ∀ g, guestStep (fetched env) ext ⟨g, a⟩ = some ⟨f g, b⟩ := fun g =>
        (guestStep_of_fetch hfetch).trans (hexec g)
      have hrun : ∀ g, GuestRuns (fetched env) ext ⟨g, a⟩ ⟨f g, b⟩ := fun g => .single (hstep g)
      obtain ⟨F, hall, hruns⟩ := ih (hright.runs (hrun g))
      have hadvance : ∀ g, GoesRight (fetched env) ext ⟨g, a⟩ →
          GuestAdvances (fetched env) ext ⟨g, a⟩ ⟨F (f g), c⟩ := fun g hg =>
        Relation.TransGen.head' (hstep g) (hruns _ (hg.runs (hrun g))).1
      refine ⟨fun g => F (f g), ?_, fun g hg => ⟨(hadvance g hg).to_reflTransGen, fun _ =>
        hadvance g hg⟩⟩
      -- a fence has no entry, and no effect on a single hart
      cases hisFence : isFence instr with
      | true =>
          rw [hfence hisFence]
          have hskip : entriesOf (instr :: instrs) = entriesOf instrs := by
            simp [entriesOf, hisFence]
          rw [hskip]
          exact hall
      | false =>
          have hkeep : entriesOf (instr :: instrs) = rewritten instr :: entriesOf instrs := by
            simp [entriesOf, hisFence]
          rw [hkeep]
          exact .cons (hlifts hisFence) hall

theorem skipCond_branch {mnem : RiscMnem} (h : mnem.controlType = some .branch) :
    ∃ cond, skipCond mnem = some cond := by
  cases mnem <;> first | contradiction | exact ⟨_, rfl⟩

/-- An instruction that the guest executes and after which the block does not go on. -/
theorem staticNext_none (hclass : instr.Classified) (hnext : staticNext env.flags instr = none)
    (hc : instr.execute ext g = some c) :
    (∃ cond, skipCond instr.mnem = some cond) ∨ instr.mnem = .jal ∨ instr.mnem = .jalr := by
  obtain ⟨hecall, hebreak, hinvalid⟩ := execute_running hc
  by_cases hbranch : instr.optype = .branch
  · refine .inl (skipCond_branch ?_)
    rw [hclass.control, hbranch]
    rfl
  · by_cases hjal : instr.mnem = .jal
    · exact .inr (.inl hjal)
    · by_cases hjalr : instr.mnem = .jalr
      · exact .inr (.inr hjalr)
      · have hvalid : instr.optype ≠ .invalidInstruction := fun h => hinvalid (hclass.invalid h)
        rw [staticNext_next hvalid hbranch hjal hjalr hecall hebreak] at hnext
        cases hnext

theorem fetched_registerOperands (hfetch : fetched env a = some instr) :
    instr.RegisterOperands := by
  unfold fetched at hfetch
  split at hfetch
  · rename_i n instr' hparse
    obtain rfl := Option.some.inj hfetch
    exact Parser.parseInstruction_registerOperands env.flags env.mem a hparse
  · cases hfetch

theorem rewrittenEnd_same {before : Option RiscInstr} (hebreak : instr.mnem ≠ .ebreak)
    (hjalr : instr.mnem ≠ .jalr) : rewrittenEnd env.flags before instr = instr := by
  unfold rewrittenEnd
  split
  · contradiction
  · contradiction
  · rfl

/-- The last entry of a block leads on to where the guest continues. -/
theorem Supported.tail (hs : Supported env ext) {maxCount : Nat} (hmax : 2 ≤ maxCount)
    {trace : List RiscInstr}
    {last : RiscInstr} {finished : RiscAddr → CacheLoc → Prop} {cache : CodeCache}
    {f : RiscAddr → Option CacheLoc} (htrace : Trace env a trace b)
    (hend : BlockEnd env maxCount (entriesOf trace) b last) (hinv : CodeCache.Inv cache f)
    (hfin : ∀ a loc, f a = some loc → loc ≠ translationStarted → finished a loc)
    (hright : GoesRight (fetched env) ext ⟨g, b⟩) :
    ∃ follows : GuestState → GuestAt → Prop,
      (∀ e₀ : EmitState, e₀.code = [] → e₀.gen.rInfo.WellFormed → e₀.cache = cache →
        EmitsTail env (fetched env) finished last follows e₀) ∧
      ∀ g, GoesRight (fetched env) ext ⟨g, b⟩ → ∃ c, follows g c ∧
        GuestRuns (fetched env) ext ⟨g, b⟩ c ∧
          (last.mnem ≠ .ecall → trace ≠ [] ∨ GuestAdvances (fetched env) ext ⟨g, b⟩ c) := by
  cases hend with
  | cutOff hlength =>
      -- the block is full: it has room for two entries, so one has been translated
      refine ⟨_, fun e₀ hcode hwf _ => emitsTail_pcNext rfl hcode hwf,
        fun g _ => ⟨⟨g, b⟩, rfl, .refl, fun _ => .inl ?_⟩⟩
      rintro rfl
      have hone : 0 + 1 = maxCount := hlength
      omega
  | @terminator instr hfetch haddr hnext =>
      obtain ⟨-, hclass⟩ := fetched_sound hfetch
      have hoperands := fetched_registerOperands hfetch
      by_cases hecall : instr.mnem = .ecall
      · rw [rewrittenEnd_same (by simp [hecall]) (by simp [hecall])]
        refine ⟨_, fun e₀ hcode hwf _ => emitsTail_ecall hecall hcode hwf,
          fun g _ => ⟨⟨g, b⟩, ⟨?_, instr, hfetch, hecall⟩, .refl, fun h => absurd hecall h⟩⟩
        rw [haddr]
      · obtain ⟨c, hc⟩ := hright.steps hfetch hecall
        have hstep : ∀ {g c}, instr.execute ext g = some c →
            GuestAdvances (fetched env) ext ⟨g, b⟩ c := fun {g c} hc =>
          .single ((guestStep_of_fetch hfetch).trans hc)
        obtain ⟨-, hebreak, -⟩ := execute_running hc
        rcases staticNext_none hclass hnext hc with ⟨cond, hcond⟩ | hjal | hjalr
        · -- a branch, taken or not
          have hoptype := optype_of_control hclass (controlType_branch hcond)
          obtain ⟨hrs1, hrs2⟩ := hoperands.branch hoptype
          have hjalr : instr.mnem ≠ .jalr := fun h => by rw [h] at hcond; cases hcond
          rw [rewrittenEnd_same hebreak hjalr]
          refine ⟨_, fun e₀ hcode hwf hcache => emitsTail_branch hcond hrs1 hrs2 hcode hwf
            (hcache ▸ hinv) hfin, fun g _ => ?_⟩
          have hadvance := hstep (execute_branch (g := g) hcond)
          exact ⟨_, ⟨_, branchTaken_skip hcond _ _, rfl⟩, hadvance.to_reflTransGen,
            fun _ => .inr hadvance⟩
        · -- a jump that links
          have hoptype : instr.optype = .jump := optype_of_control hclass (by rw [hjal]; rfl)
          rw [rewrittenEnd_same hebreak (by simp [hjal])]
          exact ⟨_, fun e₀ hcode hwf hcache => emitsTail_jal hs.ras hjal (hoperands.jump hoptype)
            hcode hwf (hcache ▸ hinv) hfin, fun g _ => ⟨_, rfl,
              (hstep (execute_jal hjal)).to_reflTransGen, fun _ => .inr (hstep (execute_jal hjal))⟩⟩
        · -- an indirect jump, whose entry carries the hint for chaining in `rs2`
          have hoptype : instr.optype = .jump := optype_of_control hclass (by rw [hjalr]; rfl)
          obtain ⟨hrs1, himm⟩ := hoperands.jalr hoptype hjalr
          have hentry : rewrittenEnd env.flags (entriesOf trace).getLast? instr =
              { instr with regSrc2 := chainHint env.flags (entriesOf trace).getLast? instr } := by
            unfold rewrittenEnd
            rw [hjalr]
          rw [hentry]
          refine ⟨_, fun e₀ hcode hwf _ => emitsTail_jalr hs.ras (fun hchain => ?_) hjalr
            (hoperands.jump hoptype) hrs1 (hs.jalr b instr hfetch hjalr) himm hcode hwf,
            fun g _ => ⟨_, rfl, (hstep (execute_jalr hjalr)).to_reflTransGen,
              fun _ => .inr (hstep (execute_jalr hjalr))⟩⟩
          show chainHint env.flags (entriesOf trace).getLast? instr ≠ 1
          rw [hs.unmarked hchain a trace b instr htrace hfetch hjalr]
          exact Nat.zero_ne_one

/-- A parsed block leads on. -/
theorem Supported.leadsOn (hs : Supported env ext) {maxCount : Nat} (hmax : 2 ≤ maxCount)
    {entries : List RiscInstr}
    {finished : RiscAddr → CacheLoc → Prop} {t t' : TransState} {block : Block}
    {f : RiscAddr → Option CacheLoc} (hwf : t.rInfo.WellFormed) (hempty : t.rInfo.Empty)
    (hblock : IsBlock env maxCount a entries) (hinv : CodeCache.Inv t.cache f)
    (hfin : ∀ a loc, f a = some loc → loc ≠ translationStarted → finished a loc)
    (h : translateBlockInstructions env entries t = .ok (block, t')) :
    LeadsOn env (fetched env) ext finished a block := by
  obtain ⟨trace, b, last, htrace, rfl, hend, -⟩ := hblock
  intro g hright
  obtain ⟨F, hfront, hruns⟩ := hs.trace htrace hright
  obtain ⟨hrun, hadvance⟩ := hruns g hright
  obtain ⟨follows, htail, hfollows⟩ := hs.tail hmax htrace hend hinv hfin (hright.runs hrun)
  obtain ⟨hgarbled, hlast, hleads⟩ :=
    translateBlockInstructions_leads hs.fusion hwf hfront htail h
  obtain ⟨c, hc, hrun', hadvance'⟩ := hfollows _ (hright.runs hrun)
  refine ⟨hgarbled, last, hlast, fun fin code h hle hlinked hb hchain => ?_⟩
  have hrep := (represents_iff_atBoundary hwf hempty).2 hb
  refine (hleads fin code g h c hle hlinked hrep hc hchain).mono fun m hm =>
    ⟨c, hrun.trans hrun', fun hmnem => ?_, hm⟩
  -- the guest moves on in the entries before the last one or at the last one
  rcases hadvance' hmnem with hne | hadvance'
  · exact (hadvance hne).trans_left hrun'
  · exact Relation.TransGen.trans_right hrun hadvance'

end Programs

end RiaJit.Translate
