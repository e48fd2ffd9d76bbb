import RiaJit.Gen.Tails

/-!
# Jumps, system calls and cut off blocks

The last entries of a block that leave it in one way: `JAL`, `JALR` that is not marked for
a direct jump, `ECALL`, and the pseudo instruction of a block that was cut off.
-/

set_option autoImplicit false

namespace RiaJit.Translate

open EmitLogic X86 StateExcept Checkpoints

/-! ## Emission of the last part of a block -/

/-- Steps that only append are one. -/
theorem lift_bind {α β : Type} (x : Gen α) (y : α → Gen β) :
    Emit.lift (x >>= y) = Emit.lift x >>= fun a => Emit.lift (y a) := by
  funext s
  show Except.ok (_, { s with code := s.code ++ ((x s.gen).2.1 ++ _), gen := _ }) = _
  rw [← List.append_assoc]
  rfl

/-- The emission of the last entry and of the end of the block gives code that leaves the block
for where `follows` says. -/
def EmitsTail (env : Env) (program : Program) (finished : RiscAddr → CacheLoc → Prop)
    (entry : RiscInstr) (follows : GuestState → GuestAt → Prop) (e₀ : EmitState) : Prop :=
  ∀ e₁, translateRiscInstr env entry e₀ = .ok ((), e₁) →
    (blockEnd env (decide (entry.mnem = .ecall)) e₁.gen).2.2.err = false →
    e₁.garbled = e₀.garbled ∧
      TailOk env program finished entry follows e₀.gen.rInfo e₀.start
        (e₁.code ++ (blockEnd env (decide (entry.mnem = .ecall)) e₁.gen).2.1)

section Tails

variable {env : Env} {program : Program} {finished : RiscAddr → CacheLoc → Prop}
  {entry : RiscInstr} {follows : GuestState → GuestAt → Prop} {r : RegisterInfo}
  {start : BitVec 64} {e₀ e₁ : EmitState}

/-- A tail whose first part leaves all values where they are between two blocks. -/
theorem tailOk_of_boundary {pre rest : List FeInstr} {f : GuestState → GuestState}
    (hpre : ∀ g h, Represents x0 g r h → ∃ h', runCode FeInstr.exec pre h = some h' ∧
      AtBoundary (f g) h' ∧ Outside h h')
    (hrest : ∀ (fin : RiscAddr → CacheLoc → Prop) code g h h₀ c,
      (∀ a loc, finished a loc → fin a loc) →
      HoldsLinked env.enc code (fun cond loc => fin (exitTarget entry cond) loc)
        (env.enc.after start pre) rest →
      AtBoundary (f g) h → Kept h₀ h → h.cell .chainEnd = h₀.cell .chainEnd → follows g c →
      Arrives (env.enc.step code)
        (Leaves env program fin code entry (StubIn env.enc start (pre ++ rest)) c h₀)
        ⟨env.enc.after start pre, h⟩) :
    TailOk env program finished entry follows r start (pre ++ rest) := by
  intro fin code g h c hle hlinked hrep hfollows _
  obtain ⟨h', hrun, hb, hout⟩ := hpre g h hrep
  obtain ⟨hheld, hheld'⟩ := allAt_append.1 hlinked
  exact Arrives.steps (HoldsLinked.reaches hheld hrun)
    (hrest fin code g h' h c hle hheld' hb hout.kept (hout.cell _ (by simp [isRegFile])) hfollows)

/-- A stub behind other code. -/
theorem stubIn_append {pre is post : List FeInstr} {i : FeInstr} {cond : Option Cond}
    (hstub : i.stub = some cond) (htail : ∃ rest, is = i :: rest) :
    StubIn env.enc start (pre ++ (is ++ post)) (env.enc.after start pre) cond := by
  obtain ⟨rest, rfl⟩ := htail
  exact ⟨pre, i, rest ++ post, rfl, rfl, hstub⟩

theorem chainHere_emission (env : Env) (s : GenState) :
    onlyIf env.flags.translateOptChain (chainHere env) s = ((), stubCode env, s) := by
  have hmnem : FeInstr.encodable (.mov32miCell .chainType (env.enc.jumpMnem none)) = true :=
    env.enc.jumpMnem_fits none
  by_cases hchain : env.flags.translateOptChain = true
  · rw [stubCode_chain hchain]
    unfold onlyIf
    rw [if_pos hchain]
    exact then_emission (feEnc64_accepted rfl s)
      (then_emission (feEnc64_accepted rfl s) (feEnc64_accepted hmnem s))
  · rw [stubCode_unchained hchain]
    exact onlyIf_emission_neg hchain s

/-- All values are written back. -/
theorem invalidateAll_emission (hwf : r.WellFormed) (e : Bool) :
    ∃ is, invalidateAllReplacements ⟨r, e⟩ = ((), is, ⟨cleared r, e⟩) ∧
      ∀ g h, Represents x0 g r h → ∃ h', runCode FeInstr.exec is h = some h' ∧
        AtBoundary g h' ∧ Outside h h' := by
  obtain ⟨is, r', hgen, -, hrun⟩ := simulates_invalidateAll.emission hwf e
  have hr : r' = cleared r := by
    have h := invalidateAll_rInfo ⟨r, e⟩
    rw [hgen] at h
    exact h
  subst hr
  refine ⟨is, hgen, fun g h hrep => ?_⟩
  obtain ⟨h', hcode, hrep', hout⟩ := hrun g h hrep
  exact ⟨h', hcode, (represents_iff_atBoundary (cleared_wellFormed r) (cleared_empty r)).1 hrep',
    hout⟩

/-- The emission of an entry that only appends. -/
theorem translateRiscInstr_lift {gen : Gen Unit}
    (hdispatch : dispatchInstr env entry = Emit.lift gen)
    (h : translateRiscInstr env entry e₀ = .ok ((), e₁)) :
    e₁.code = e₀.code ++ (gen e₀.gen).2.1 ++ boundaryCode env.flags ∧
      e₁.gen = (gen e₀.gen).2.2 ∧ e₁.garbled = e₀.garbled := by
  unfold translateRiscInstr at h
  rw [hdispatch] at h
  obtain ⟨_, s, hs, hb⟩ := bind_ok h
  obtain rfl := lift_ok hs
  obtain rfl := lift_ok hb
  rw [boundary_emission]
  exact ⟨rfl, rfl, rfl⟩

/-! ## Blocks that are cut off -/

theorem emitsTail_pcNext (hmnem : entry.mnem = .pcNextInst) (hcode : e₀.code = [])
    (hwf : e₀.gen.rInfo.WellFormed) :
    EmitsTail env program finished entry (fun g c => c = ⟨g, entry.imm⟩) e₀ := by
  intro e₁ h _
  have hdispatch : dispatchInstr env entry =
      Emit.lift (translatePC_NEXT_INST env entry.imm) := by
    simp only [dispatchInstr, hmnem, coreEmitter]
  obtain ⟨hcode₁, hgen₁, hgarbled⟩ := translateRiscInstr_lift hdispatch h
  obtain ⟨is, hinv, hpre⟩ := invalidateAll_emission hwf e₀.gen.err
  have hgen : translatePC_NEXT_INST env entry.imm e₀.gen = _ :=
    then_emission hinv (then_emission (chainHere_emission env _)
      (then_emission (feEnc64_accepted (i := .mov64ri .ax entry.imm) rfl _)
        (feEnc64_accepted rfl _)))
  have hend := blockEnd_empty env e₀.gen.err (cleared_empty e₀.gen.rInfo) false
  rw [hgen] at hcode₁ hgen₁
  rw [hcode, List.nil_append] at hcode₁
  rw [hmnem, hcode₁, hgen₁]
  refine ⟨hgarbled, ?_⟩
  show TailOk _ _ _ _ _ _ _ (_ ++ (blockEnd env false _).2.1)
  rw [hend]
  have htarget : exitTarget entry none = entry.imm := if_pos hmnem
  rw [List.append_assoc, List.append_assoc]
  refine tailOk_of_boundary (f := id) hpre fun fin code g h' h₀ c _ hlinked hb hkept hchain hc => ?_
  have hexit : ExitCode env fin entry.imm _ := .pseudo
  refine hexit.leaves (by simp [hmnem]) htarget hlinked (fun post hpost => ?_) (hc ▸ hb)
    (congrArg GuestAt.addr hc) hkept hchain
  exact stubIn_append (i := .leaRip .ax) rfl ⟨post, hpost⟩

/-! ## `JAL` -/

theorem setPc_of_err {target : RiscAddr} {s : GenState} (h : (setPc target s).2.2.err = false) :
    setPc target s = ((), [.mov64miCell (.gp pc) target], s) :=
  (feEnc64_of_err h).1

/-- The exit of a `JAL` is the code of an exit, where the encoder accepts it. -/
theorem jalExit_of_err {target : RiscAddr} {o : Option CacheLoc} {s s' : EmitState}
    (h : jalExit env target o s = .ok ((), s')) (herr : s'.gen.err = false)
    (ho : ∀ loc, o = some loc → finished target loc) :
    ∃ is, ExitCode env finished target is ∧ s' = { s with code := s.code ++ is } := by
  cases o with
  | some loc =>
      obtain ⟨long, -, rfl⟩ := encJump_of_err h herr
      exact ⟨_, .direct (ho loc rfl), rfl⟩
  | none =>
      obtain rfl := lift_ok h
      -- the store is accepted, because no error was set
      have hstore : (setPc target s.gen).2.2.err = false := by
        have hsame := chainHere_emission env s.gen
        have hgen : (do
            onlyIf env.flags.translateOptChain (chainHere env)
            setPc target) s.gen = _ :=
          then_emission hsame (Prod.mk.eta (p := setPc target s.gen)).symm
        exact (congrArg (fun p => p.2.2.err) hgen).symm.trans herr
      have hset := setPc_of_err hstore
      have hgen : (do
          onlyIf env.flags.translateOptChain (chainHere env)
          setPc target) s.gen = _ := then_emission (chainHere_emission env s.gen) hset
      refine ⟨_, .noted, ?_⟩
      rw [hgen]

theorem ExitCode.mono {fin : RiscAddr → CacheLoc → Prop} {target : RiscAddr} {is : List FeInstr}
    (h : ExitCode env finished target is) (hle : ∀ a loc, finished a loc → fin a loc) :
    ExitCode env fin target is := by
  cases h with
  | direct hfin => exact .direct (hle _ _ hfin)
  | noted => exact .noted
  | pseudo => exact .pseudo

/-- A simulation after which all values are written back. -/
theorem Simulates.boundary_emission {gen : Gen Unit} {f : GuestState → GuestState}
    (hs : Simulates gen f) (hwf : r.WellFormed) (e : Bool) :
    ∃ is r', (gen >>= fun _ => invalidateAllReplacements) ⟨r, e⟩ = ((), is, ⟨cleared r', e⟩) ∧
      ∀ g h, Represents x0 g r h → ∃ h', runCode FeInstr.exec is h = some h' ∧
        AtBoundary (f g) h' ∧ Outside h h' := by
  obtain ⟨is, r', hgen, hwf', hrun⟩ := hs.emission hwf e
  obtain ⟨js, hinv, hrun'⟩ := invalidateAll_emission hwf' e
  refine ⟨is ++ js, r', then_emission hgen hinv, fun g h hrep => ?_⟩
  obtain ⟨h₁, hcode, hrep', hout⟩ := hrun g h hrep
  obtain ⟨h₂, hcode', hb, hout'⟩ := hrun' _ h₁ hrep'
  refine ⟨h₂, ?_, hb, hout.trans hout'⟩
  rw [runCode_append, hcode]
  exact hcode'

/-- Two steps that append are one. -/
theorem lift_then {α β : Type} {x : Gen α} {y : Gen β} {s s₁ s₂ : EmitState} {a : α} {b : β}
    (hx : Emit.lift x s = .ok (a, s₁)) (hy : Emit.lift y s₁ = .ok (b, s₂)) :
    Emit.lift (x >>= fun _ => y) s = .ok (b, s₂) := by
  obtain rfl := lift_ok hx
  obtain rfl := lift_ok hy
  have hb : (y (x s.gen).2.2).1 = b := congrArg Prod.fst (Except.ok.inj hy)
  show Except.ok ((y (x s.gen).2.2).1, { s with
    code := s.code ++ ((x s.gen).2.1 ++ (y (x s.gen).2.2).2.1), gen := _ }) = _
  rw [hb, ← List.append_assoc]
  rfl

theorem emitsTail_jal (hras : env.flags.translateOptRas = false) (hmnem : entry.mnem = .jal)
    (hrd : entry.regDest < 32) (hcode : e₀.code = []) (hwf : e₀.gen.rInfo.WellFormed)
    {f : RiscAddr → Option CacheLoc} (hinv : CodeCache.Inv e₀.cache f)
    (hfin : ∀ a loc, f a = some loc → loc ≠ translationStarted → finished a loc) :
    EmitsTail env program finished entry (fun g c =>
      c = ⟨g.write entry.regDest (entry.addr + 4#64), entry.addr + entry.imm⟩) e₀ := by
  intro e₁ h hend
  have hecall : decide (entry.mnem = .ecall) = false := by rw [hmnem]; rfl
  rw [hecall] at hend ⊢
  have hdispatch : dispatchInstr env entry = translateJAL env entry := by
    simp only [dispatchInstr, hmnem, coreEmitter]
  unfold translateRiscInstr at h
  rw [hdispatch] at h
  obtain ⟨_, s₆, h, hboundary⟩ := bind_ok h
  obtain ⟨_, s₁, h₁, h⟩ := bind_ok h
  obtain ⟨_, s₂, h₂, h⟩ := bind_ok h
  obtain ⟨_, s₃, h₃, h⟩ := bind_ok h
  obtain ⟨_, s₄, h₄, h⟩ := bind_ok h
  obtain ⟨o, s₅, h₅, hexit⟩ := bind_ok h
  -- nothing is pushed on the return stack
  have hnone : s₂ = s₁ := by
    unfold Emit.onlyIf at h₂
    rw [if_neg (fun hc => by simp [hras] at hc)] at h₂
    exact (pure_ok h₂).2
  subst hnone
  -- the code before the exit sets `rd` and writes all values back
  have hlink : Simulates (translateAUIPC env.flags (linkInstr entry)) fun g =>
      g.write entry.regDest (entry.addr + 4#64) := simulates_AUIPC env.flags rfl hrd
  obtain ⟨is, r', hgen, hpre⟩ :=
    ((simulates_profiler env.flags entry.regDest).bind hlink).boundary_emission hwf e₀.gen.err
  have hpieces := lift_ok (lift_then (lift_then h₁ h₃) h₄)
  rw [show e₀.gen = ⟨e₀.gen.rInfo, e₀.gen.err⟩ from rfl, hgen, hcode, List.nil_append] at hpieces
  -- the exit
  have hinv₄ : CodeCache.Inv s₄.cache f := by
    rw [hpieces]
    exact hinv
  obtain ⟨o', hadds, ho⟩ := lookupFinished_adds env hinv₄ (entry.addr + entry.imm)
  obtain ⟨rfl, hstart, hcode₅, hgen₅, hgarbled, -⟩ := hadds.result h₅
  have herr₁ := lift_err (keepsErr_onlyIf keepsErr_boundary) hboundary
    ((keepsErr_blockEnd env false).before hend)
  obtain ⟨js, hjs, rfl⟩ := jalExit_of_err hexit herr₁
    fun loc hloc => hfin _ _ (ho loc hloc).2.1 (ho loc hloc).2.2
  obtain rfl := lift_ok hboundary
  rw [boundary_emission]
  rw [hpieces] at hstart hcode₅ hgen₅ hgarbled
  refine ⟨hgarbled, ?_⟩
  rw [List.append_nil] at hcode₅
  dsimp only at hcode₅ hgen₅ ⊢
  rw [hcode₅, hgen₅, blockEnd_empty env _ (cleared_empty r'), List.append_assoc, List.append_assoc]
  have htarget : exitTarget entry none = entry.addr + entry.imm := if_neg (by simp [hmnem])
  refine tailOk_of_boundary hpre fun fin code g h h₀ c hle hlinked hb hkept hchain hc => ?_
  subst hc
  refine (hjs.mono hle).leaves (by simp [hmnem]) htarget hlinked (fun post hpost => ?_) hb rfl
    hkept hchain
  exact stubIn_append (i := .leaRip .ax) rfl ⟨post, hpost⟩

/-! ## `JALR` -/

section Jalr

variable {g : GuestState} {h : HostState} {s : GenState}

/-- `rd` is set where the encoder accepts the address. -/
theorem jalrLink_runs (hb : AtBoundary g h) (hrd : entry.regDest < 32)
    (hfits : entry.regDest ≠ x0 → gpMap entry.regDest = none →
      FeInstr.fitsInt32 (entry.addr + 4#64) = true) :
    ∃ h', RunsOn (jalrLink entry) s h () s h' ∧
      AtBoundary (g.write entry.regDest (entry.addr + 4#64)) h' ∧ h'.reg .ax = h.reg .ax ∧
      Outside h h' := by
  by_cases hx0 : entry.regDest = x0
  · refine ⟨h, runs_onlyIf_neg (fun hne => hne hx0), ?_, rfl, Outside.refl h⟩
    rw [hx0, write_x0]
    exact hb
  · unfold jalrLink
    cases hmap : gpMap entry.regDest with
    | some mapped =>
        have hax : FeReg.ax ≠ mapped := (gpMap_ne_ax hmap).symm
        have hsp : FeReg.sp ≠ mapped := (gpMap_ne_sp hmap).symm
        exact ⟨_, runs_onlyIf_pos hx0 (runs_feEnc64 rfl rfl), hb.writeMapped hmap _,
          h.reg_setReg_of_ne hax _, rfl, h.reg_setReg_of_ne hsp _, fun _ _ => rfl⟩
    | none =>
        refine ⟨_, runs_onlyIf_pos hx0 (runs_feEnc64 (hfits hx0 hmap) rfl), hb.writeSlot hmap _,
          rfl, rfl, rfl, fun c hc => h.cell_setCell_of_ne (fun heq => hc ?_) _⟩
        rw [heq]
        exact hrd

/-- The register of the target is read. -/
theorem moveRs1ToAx_runs (hb : AtBoundary g h) (hrs1 : entry.regSrc1 < 32)
    (hne : entry.regSrc1 ≠ x0) :
    RunsOn (moveRs1ToAx entry) s h () s (h.setReg .ax (g.read entry.regSrc1)) := by
  have hread : g.read entry.regSrc1 = g.reg entry.regSrc1 := if_neg hne
  have hval := hb.regs _ hne hrs1
  unfold moveRs1ToAx
  rw [hread, ← hval]
  cases gpMap entry.regSrc1 with
  | some mapped => exact runs_feEnc64 rfl rfl
  | none => exact runs_feEnc64 rfl rfl

/-- Only `AX` and the flags are written. -/
structure AxOnly (h h' : HostState) : Prop where
  reg : ∀ R, R ≠ .ax → h'.reg R = h.reg R
  cell : h'.cell = h.cell
  mem : h'.mem = h.mem
  stack : h'.stack = h.stack

theorem AxOnly.setReg (h : HostState) (v : BitVec 64) : AxOnly h (h.setReg .ax v) :=
  ⟨fun _ hR => h.reg_setReg_of_ne hR v, rfl, rfl, rfl⟩

theorem AxOnly.aluri (h : HostState) (v : BitVec 64) : AxOnly h (h.setReg .ax v).clobberFlags :=
  ⟨fun _ hR => h.reg_setReg_of_ne hR v, rfl, rfl, rfl⟩

theorem AxOnly.trans {h' h'' : HostState} (h₁ : AxOnly h h') (h₂ : AxOnly h' h'') :
    AxOnly h h'' :=
  ⟨fun R hR => (h₂.reg R hR).trans (h₁.reg R hR), h₂.cell.trans h₁.cell, h₂.mem.trans h₁.mem,
    h₂.stack.trans h₁.stack⟩

theorem AxOnly.boundary {h' : HostState} (hax : AxOnly h h') (hb : AtBoundary g h) :
    AtBoundary g h' :=
  hb.congr hax.mem (fun _ mapped hmap => hax.reg mapped (gpMap_ne_ax hmap)) fun y _ =>
    congrFun hax.cell (.gp y)

theorem AxOnly.outside {h' : HostState} (hax : AxOnly h h') : Outside h h' :=
  ⟨hax.stack, hax.reg .sp (by simp), fun c _ => congrFun hax.cell c⟩

/-- The target is computed. -/
theorem jalrTarget_runs (hrep : Represents x0 g r h) (hrs1 : entry.regSrc1 < 32)
    (hne : entry.regSrc1 ≠ x0) (himm : ShortImm entry.imm) (e : Bool) :
    ∃ h', RunsOn (jalrTarget entry) ⟨r, e⟩ h () ⟨cleared r, e⟩ h' ∧ AtBoundary g h' ∧
      h'.reg .ax = jalrAddr entry g ∧ Outside h h' := by
  obtain ⟨is, hgen, hrun⟩ := invalidateAll_emission hrep.wf e
  obtain ⟨h₁, hcode, hb, hout⟩ := hrun g h hrep
  have hmove := moveRs1ToAx_runs (s := ⟨cleared r, e⟩) hb hrs1 hne
  have hadd : FeInstr.encodable (.aluri .add .s64 .ax entry.imm) = true := himm.fits
  -- the three instructions write `AX` only
  let h₂ := h₁.setReg .ax (g.read entry.regSrc1)
  let h₃ := (h₂.setReg .ax (g.read entry.regSrc1 + entry.imm)).clobberFlags
  have hax := ((AxOnly.setReg h₁ (g.read entry.regSrc1)).trans (AxOnly.aluri h₂
    (g.read entry.regSrc1 + entry.imm))).trans (AxOnly.aluri h₃ (jalrAddr entry g))
  have hsum : FeInstr.exec (.aluri .add .s64 .ax entry.imm) h₂ = some h₃ := by
    show some (HostState.clobberFlags (HostState.setReg _ _ (h₂.reg .ax + _))) = _
    rw [show h₂.reg .ax = g.read entry.regSrc1 from h₁.reg_setReg_self .ax _]
  have hmask : FeInstr.exec (.aluri .and .s64 .ax (-2#64)) h₃ =
      some (h₃.setReg .ax (jalrAddr entry g)).clobberFlags := by
    show some (HostState.clobberFlags (HostState.setReg _ _ (h₃.reg .ax &&& _))) = _
    rw [show h₃.reg .ax = g.read entry.regSrc1 + entry.imm from h₂.reg_setReg_self .ax _]
    rfl
  exact ⟨_, Runs.bind ⟨is, hgen, hcode⟩ (Runs.bind hmove (Runs.bind (runs_feEnc64 hadd hsum)
    (runs_feEnc64 rfl hmask))), hax.boundary hb, HostState.reg_setReg_self ..,
    hout.trans hax.outside⟩

/-- `translate_JALR` without the return stack, for an instruction that is not marked. -/
def jalrPlain (env : Env) (entry : RiscInstr) : Gen Unit := do
  recordGpProfiler env.flags entry.regSrc1
  recordGpProfiler env.flags entry.regDest
  jalrTarget entry
  jalrLink entry
  onlyIf env.flags.translateOptChain (feEnc64 (.mov64miCell .chainEnd 0#64))
  setPcFromAx

theorem translateJALR_plain (hras : env.flags.translateOptRas = false)
    (hhint : env.flags.translateOptChain = true → entry.regSrc2 ≠ 1) :
    translateJALR env entry = Emit.lift (jalrPlain env entry) := by
  have hstack : Emit.onlyIf env.flags.translateOptRas (jalrReturnStack env entry) = pure () := by
    unfold Emit.onlyIf
    rw [hras]
    rfl
  have hstep : jalrStep4 env entry =
      Emit.lift (onlyIf env.flags.translateOptChain (feEnc64 (.mov64miCell .chainEnd 0#64))) :=
    if_neg fun hc => hhint hc.2 hc.1
  unfold translateJALR
  rw [hstack, hstep]
  funext s
  simp only [jalrPlain, lift_bind, pure_bind]

theorem jalrPlain_runs (env : Env) (hrep : Represents x0 g r h) (hrd : entry.regDest < 32)
    (hrs1 : entry.regSrc1 < 32) (hne : entry.regSrc1 ≠ x0) (himm : ShortImm entry.imm)
    (hfits : entry.regDest ≠ x0 → gpMap entry.regDest = none →
      FeInstr.fitsInt32 (entry.addr + 4#64) = true) (e : Bool) :
    ∃ h', RunsOn (jalrPlain env entry) ⟨r, e⟩ h () ⟨cleared r, e⟩ h' ∧
      AtBoundary (g.write entry.regDest (entry.addr + 4#64)) h' ∧ Kept h h' ∧
      h'.cell (.gp pc) = jalrAddr entry g ∧
      (env.flags.translateOptChain = true → h'.cell .chainEnd = 0#64) := by
  obtain ⟨h₁, hrun₁, hc₁⟩ := recordGpProfiler_runs (h := h) env.flags entry.regSrc1 ⟨r, e⟩
  obtain ⟨h₂, hrun₂, hc₂⟩ := recordGpProfiler_runs (h := h₁) env.flags entry.regDest ⟨r, e⟩
  have hrep₂ := hc₂.represents (hc₁.represents hrep)
  obtain ⟨h₃, hrun₃, hb₃, hax₃, hout₃⟩ := jalrTarget_runs hrep₂ hrs1 hne himm e
  obtain ⟨h₄, hrun₄, hb₄, hax₄, hout₄⟩ := jalrLink_runs (s := ⟨cleared r, e⟩) hb₃ hrd hfits
  have hkept₄ := ((hc₁.frame.outside.trans hc₂.frame.outside).trans (hout₃.trans hout₄)).kept
  -- nothing is to be chained, and the target is stored
  let h₅ := if env.flags.translateOptChain then h₄.setCell .chainEnd 0#64 else h₄
  have hrun₅ : RunsOn (onlyIf env.flags.translateOptChain
      (feEnc64 (.mov64miCell .chainEnd 0#64))) ⟨cleared r, e⟩ h₄ () ⟨cleared r, e⟩ h₅ := by
    by_cases hchain : env.flags.translateOptChain = true
    · have hset : h₅ = h₄.setCell .chainEnd 0#64 := if_pos hchain
      rw [hset]
      exact runs_onlyIf_pos hchain (runs_feEnc64 rfl rfl)
    · have hset : h₅ = h₄ := if_neg hchain
      rw [hset]
      exact runs_onlyIf_neg hchain
  have hreg₅ : h₅.reg = h₄.reg ∧ h₅.mem = h₄.mem ∧ h₅.stack = h₄.stack ∧
      ∀ c, c ≠ .chainEnd → h₅.cell c = h₄.cell c := by
    by_cases hchain : env.flags.translateOptChain = true
    · rw [show h₅ = h₄.setCell .chainEnd 0#64 from if_pos hchain]
      exact ⟨rfl, rfl, rfl, fun c hc => h₄.cell_setCell_of_ne hc _⟩
    · rw [show h₅ = h₄ from if_neg hchain]
      exact ⟨rfl, rfl, rfl, fun _ _ => rfl⟩
  obtain ⟨hreg, hmem, hstack, hcell⟩ := hreg₅
  refine ⟨h₅.setCell (.gp pc) (h₅.reg .ax), hrun₁.bind (hrun₂.bind (hrun₃.bind (hrun₄.bind
    (hrun₅.bind (runs_feEnc64 rfl rfl))))), ?_, ?_, ?_, fun hchain => ?_⟩
  · refine hb₄.congr hmem (fun _ _ _ => congrFun hreg _) fun y hy => ?_
    have hpc : Cell.gp y ≠ .gp pc := fun heq => absurd (Cell.gp.inj heq ▸ hy) (by decide)
    exact (h₅.cell_setCell_of_ne hpc _).trans (hcell _ (by simp))
  · refine hkept₄.trans ⟨hstack, congrFun hreg _, fun c _ _ hpc hend _ => ?_⟩
    exact (h₅.cell_setCell_of_ne hpc _).trans (hcell c hend)
  · exact (h₅.cell_setCell_self _ _).trans ((congrFun hreg _).trans (hax₄.trans hax₃))
  · refine (h₅.cell_setCell_of_ne (by simp) _).trans ?_
    rw [show h₅ = h₄.setCell .chainEnd 0#64 from if_pos hchain]
    exact h₄.cell_setCell_self _ _

/-- Where the encoder has accepted all, the address that is linked fits. -/
theorem jalrPlain_fits (env : Env) (hwf : r.WellFormed) (hrs1 : entry.regSrc1 < 32)
    (hne : entry.regSrc1 ≠ x0) (himm : ShortImm entry.imm) {e : Bool}
    (herr : (jalrPlain env entry ⟨r, e⟩).2.2.err = false) :
    entry.regDest ≠ x0 → gpMap entry.regDest = none →
      FeInstr.fitsInt32 (entry.addr + 4#64) = true := by
  intro hx0 hmap
  have hrep := represents_self hwf ⟨fun _ => 0#64, none, fun _ => 0#64, fun _ => 0#8, []⟩
  obtain ⟨h₁, ⟨_, hgen₁, -⟩, hc₁⟩ := recordGpProfiler_runs (h := _) env.flags entry.regSrc1 ⟨r, e⟩
  obtain ⟨h₂, ⟨_, hgen₂, -⟩, hc₂⟩ := recordGpProfiler_runs (h := h₁) env.flags entry.regDest ⟨r, e⟩
  have hrep₂ := hc₂.represents (hc₁.represents hrep)
  obtain ⟨_, ⟨_, hgen₃, -⟩, -⟩ := jalrTarget_runs hrep₂ hrs1 hne himm e
  have hgen : jalrPlain env entry ⟨r, e⟩ = _ :=
    then_emission hgen₁ (then_emission hgen₂ (then_emission hgen₃ (Prod.mk.eta (p := (do
      jalrLink entry
      onlyIf env.flags.translateOptChain (feEnc64 (.mov64miCell .chainEnd 0#64))
      setPcFromAx) ⟨cleared r, e⟩)).symm))
  rw [hgen] at herr
  have hrest : KeepsErr (do
      onlyIf env.flags.translateOptChain (feEnc64 (.mov64miCell .chainEnd 0#64))
      setPcFromAx) :=
    .bind (keepsErr_onlyIf (keepsErr_feEnc64 _)) fun _ => keepsErr_feEnc64 _
  have hlink : (jalrLink entry ⟨cleared r, e⟩).2.2.err = false := hrest.before herr
  unfold jalrLink onlyIf at hlink
  rw [if_pos hx0, hmap] at hlink
  exact (feEnc64_of_err hlink).2

end Jalr

theorem emitsTail_jalr (hras : env.flags.translateOptRas = false)
    (hhint : env.flags.translateOptChain = true → entry.regSrc2 ≠ 1) (hmnem : entry.mnem = .jalr)
    (hrd : entry.regDest < 32) (hrs1 : entry.regSrc1 < 32) (hne : entry.regSrc1 ≠ x0)
    (himm : ShortImm entry.imm) (hcode : e₀.code = []) (hwf : e₀.gen.rInfo.WellFormed) :
    EmitsTail env program finished entry (fun g c =>
      c = ⟨g.write entry.regDest (entry.addr + 4#64), jalrAddr entry g⟩) e₀ := by
  intro e₁ h hend
  have hecall : decide (entry.mnem = .ecall) = false := by rw [hmnem]; rfl
  rw [hecall] at hend ⊢
  have hdispatch : dispatchInstr env entry = Emit.lift (jalrPlain env entry) := by
    rw [← translateJALR_plain hras hhint]
    simp only [dispatchInstr, hmnem, coreEmitter]
  obtain ⟨hcode₁, hgen₁, hgarbled⟩ := translateRiscInstr_lift hdispatch h
  have hfits := jalrPlain_fits env hwf hrs1 hne himm (e := e₀.gen.err)
    (hgen₁ ▸ (keepsErr_blockEnd env false).before hend)
  -- the code does not depend on the host that runs it
  obtain ⟨_, ⟨is, hgen, -⟩, -⟩ := jalrPlain_runs env
    (represents_self hwf ⟨fun _ => 0#64, none, fun _ => 0#64, fun _ => 0#8, []⟩) hrd hrs1 hne himm
    hfits e₀.gen.err
  rw [show e₀.gen = ⟨e₀.gen.rInfo, e₀.gen.err⟩ from rfl, hgen] at hcode₁ hgen₁
  refine ⟨hgarbled, ?_⟩
  rw [hcode₁, hgen₁, hcode, List.nil_append, blockEnd_empty env _ (cleared_empty _)]
  dsimp only
  rw [List.append_assoc]
  intro fin code g h c hle hlinked hrep hc _
  obtain ⟨h', ⟨is', hgen', hrun⟩, hb, hkept, hpc, hchain⟩ :=
    jalrPlain_runs env hrep hrd hrs1 hne himm hfits e₀.gen.err
  obtain rfl : is' = is := (congrArg (fun p => p.2.1) (hgen'.symm.trans hgen))
  obtain ⟨hheld, hheld'⟩ := allAt_append.1 hlinked
  obtain ⟨a', hreach, hret⟩ := ending_reaches (h := h') hheld'
  subst hc
  exact ⟨_, (HoldsLinked.reaches hheld hrun).trans hreach, hb, hkept,
    .finish (by simp [hmnem]) hret hpc fun hc => .inl (hchain hc)⟩

/-! ## `ECALL` -/

/-- The code of a system call up to the return to the dispatcher. -/
theorem ecall_emission (s : GenState) : (do
    feEnc64 (.call env.runtime.saveContext)
    feEnc64 (.mov64ri .di entry.addr)
    feEnc64 (.mov64ri .si env.runtime.gpRegFile)
    feEnc64 (.call env.runtime.emulateEcall)
    feEnc64 (.alurr .xor .s32 .si .si)
    feEnc64 (.call env.runtime.loadExecuteSaveContext)) s = ((), [
      .call env.runtime.saveContext, .mov64ri .di entry.addr, .mov64ri .si env.runtime.gpRegFile,
      .call env.runtime.emulateEcall, .alurr .xor .s32 .si .si,
      .call env.runtime.loadExecuteSaveContext], s) :=
  then_emission (feEnc64_accepted rfl s) (then_emission (feEnc64_accepted rfl s)
    (then_emission (feEnc64_accepted rfl s) (then_emission (feEnc64_accepted rfl s)
      (then_emission (feEnc64_accepted rfl s) (feEnc64_accepted rfl s)))))

/-- No jump is written over the code of a system call. -/
theorem ecallCode_stub (env : Env) (a : RiscAddr) : ∀ i ∈ ecallCode env a, i.stub = none := by
  intro i hi
  unfold ecallCode boundaryCode endingCode at hi
  simp only [List.mem_append, List.mem_cons, List.not_mem_nil, or_false] at hi
  rcases hi with (rfl | rfl | rfl | rfl | rfl | rfl) | hi | hi | rfl
  · rfl
  · rfl
  · rfl
  · rfl
  · rfl
  · rfl
  · split at hi
    · simp only [List.mem_cons, List.not_mem_nil, or_false, or_self] at hi
      rw [hi]
      rfl
    · cases hi
  · split at hi
    · rw [List.mem_singleton.1 hi]
      rfl
    · cases hi
  · rfl

theorem emitsTail_ecall (hmnem : entry.mnem = .ecall) (hcode : e₀.code = [])
    (hwf : e₀.gen.rInfo.WellFormed) :
    EmitsTail env program finished entry
      (fun g c => c = ⟨g, entry.addr⟩ ∧ AtEcall program c) e₀ := by
  intro e₁ h _
  have hecall : decide (entry.mnem = .ecall) = true := decide_eq_true hmnem
  rw [hecall]
  have hdispatch : dispatchInstr env entry = Emit.lift (translateECALL env entry) := by
    simp only [dispatchInstr, hmnem, coreEmitter]
  obtain ⟨hcode₁, hgen₁, hgarbled⟩ := translateRiscInstr_lift hdispatch h
  obtain ⟨is, hinv, hpre⟩ := invalidateAll_emission hwf e₀.gen.err
  have hgen : translateECALL env entry e₀.gen = _ := then_emission hinv (ecall_emission _)
  rw [hgen, hcode, List.nil_append] at hcode₁
  rw [hgen] at hgen₁
  refine ⟨hgarbled, ?_⟩
  rw [hcode₁, hgen₁, blockEnd_empty env _ (cleared_empty _)]
  dsimp only
  rw [List.append_assoc, List.append_assoc]
  refine tailOk_of_boundary (f := id) hpre fun fin code g h' h₀ c _ hlinked hb hkept _ hc => ?_
  obtain ⟨rfl, hat⟩ := hc
  exact .here ⟨hb, hkept, .call hat (HoldsLinked.holds hlinked (ecallCode_stub env entry.addr))⟩

end Tails

end RiaJit.Translate
