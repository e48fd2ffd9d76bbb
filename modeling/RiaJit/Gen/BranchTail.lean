import RiaJit.Gen.JumpTails
import RiaJit.X86.Conditions

/-!
# Branches

The last entry of a block that leaves it in one of two ways. The long conditional jump is
itself the stub of the way where the branch is not taken: `chain` writes its target over
it, under the same condition.
-/

set_option autoImplicit false

namespace RiaJit.Translate

open EmitLogic X86 StateExcept Checkpoints

/-! ## The comparison -/

/-- The jump over the taken part. -/
def skipCond : RiscMnem → Option Cond
  | .beq => some .nz
  | .bne => some .z
  | .blt => some .ge
  | .bltu => some .nc
  | .bge => some .l
  | .bgeu => some .c
  | _ => none

section Comparison

variable {env : Env} {entry : RiscInstr} {g : GuestState} {r : RegisterInfo} {h : HostState}
  {e : Bool}

theorem dispatchInstr_branch {cond : Cond} (hcond : skipCond entry.mnem = some cond) :
    dispatchInstr env entry = translateBranch env entry cond := by
  unfold skipCond at hcond
  split at hcond
  all_goals
    first
    | cases hcond
      simp only [dispatchInstr, coreEmitter, *]
      rfl
    | cases hcond

/-- The taken part is skipped where the branch is not taken. -/
theorem branchTaken_skip {cond : Cond} (hcond : skipCond entry.mnem = some cond)
    (a b : BitVec 64) : entry.branchTaken a b = some (!cond.holds (cmpFlags a b)) := by
  unfold skipCond at hcond
  unfold RiscInstr.branchTaken
  split at hcond
  · obtain rfl := Option.some.inj hcond
    rename_i hmnem
    rw [hmnem, holds_nz, Bool.not_not]
  · obtain rfl := Option.some.inj hcond
    rename_i hmnem
    rw [hmnem, holds_z]
    rfl
  · obtain rfl := Option.some.inj hcond
    rename_i hmnem
    rw [hmnem, holds_ge, Bool.not_not]
  · obtain rfl := Option.some.inj hcond
    rename_i hmnem
    rw [hmnem, holds_nc, Bool.not_not]
  · obtain rfl := Option.some.inj hcond
    rename_i hmnem
    rw [hmnem, holds_l]
  · obtain rfl := Option.some.inj hcond
    rename_i hmnem
    rw [hmnem, holds_c]
  · cases hcond

theorem Represents.withFlags {d : Nat} (hrep : Represents d g r h) (flags : Option X86Flags) :
    Represents d g r { h with flags := flags } :=
  ⟨hrep.wf, hrep.regs, hrep.mem⟩

theorem writtenBack_flags (r : RegisterInfo) (h : HostState) (i : Fin 3) :
    (writtenBack r h i).flags = h.flags := by
  unfold writtenBack
  split
  · rfl
  · rfl

/-- All values are written back with the flags as they were. -/
theorem invalidateAll_flags (hrep : Represents x0 g r h) :
    ∃ h', RunsOn invalidateAllReplacements ⟨r, e⟩ h () ⟨cleared r, e⟩ h' ∧ AtBoundary g h' ∧
      Outside h h' ∧ h'.flags = h.flags := by
  have hwf₁ := hrep.wf.clear 0
  have hwf₂ := hwf₁.clear 1
  have hrep₃ := ((hrep.invalidate 0).invalidate 1).invalidate 2
  refine ⟨_, Runs.bind (invalidateReplacement_runs r h e 0) (Runs.bind
    (invalidateReplacement_runs _ _ e 1) (invalidateReplacement_runs _ _ e 2)),
    (represents_iff_atBoundary (cleared_wellFormed r) (cleared_empty r)).1 hrep₃, ?_, ?_⟩
  · exact ((frame_writtenBack hrep.wf 0).outside.trans (frame_writtenBack hwf₁ 1).outside).trans
      (frame_writtenBack hwf₂ 2).outside
  · rw [writtenBack_flags, writtenBack_flags, writtenBack_flags]

/-- The flags are those of a comparison of the two registers. -/
theorem cmpRs1Rs2_runs (env : Env) (e : Bool) (hrep : Represents x0 g r h)
    (hrs1 : entry.regSrc1 < 32) (hrs2 : entry.regSrc2 < 32) :
    ∃ r' h', RunsOn (cmpRs1Rs2 env entry) ⟨r, e⟩ h () ⟨cleared r', e⟩ h' ∧ AtBoundary g h' ∧
      Outside h h' ∧
      h'.flags = some (cmpFlags (g.read entry.regSrc1) (g.read entry.regSrc2)) := by
  obtain ⟨h₁, hrun₁, hc₁⟩ := recordGpProfiler_runs (h := h) env.flags entry.regSrc1 ⟨r, e⟩
  obtain ⟨h₂, hrun₂, hc₂⟩ := recordGpProfiler_runs (h := h₁) env.flags entry.regSrc2 ⟨r, e⟩
  have hrep₂ := hc₂.represents (hc₁.represents hrep)
  have hout₂ := hc₁.frame.outside.trans hc₂.frame.outside
  obtain ⟨R, r₃, h₃, hrun₃, hf₃, ho₃⟩ := getSrc_runs (e := e) env.flags hrep₂ hrs1
  -- the comparison, or the test with itself for `x0`
  have hcompare : ∃ r₄ h₄, RunsOn (compareWithRs2 env entry R) ⟨r₃, e⟩ h₃ () ⟨r₄, e⟩ h₄ ∧
      Represents x0 g r₄ h₄ ∧ Outside h₃ h₄ ∧
      h₄.flags = some (cmpFlags (g.read entry.regSrc1) (g.read entry.regSrc2)) := by
    unfold compareWithRs2
    by_cases hx0 : entry.regSrc2 = x0
    · rw [if_pos hx0]
      refine ⟨r₃, _, runs_feEnc64 rfl rfl, hf₃.rep.withFlags _, ⟨rfl, rfl, fun _ _ => rfl⟩, ?_⟩
      show some (testFlags (h₃.reg R) (h₃.reg R)) = _
      rw [testFlags_self, ho₃.2, hx0]
      rfl
    · rw [if_neg hx0]
      obtain ⟨S, r₄, h₄, hrun₄, hf₄, ho₄⟩ := getSrc_runs (e := e) env.flags hf₃.rep hrs2
      have hR := (hf₄.operands R entry.regSrc1 0 (by omega) hrs1 ho₃).2
      refine ⟨r₄, _, hrun₄.bind (runs_feEnc64 rfl rfl), hf₄.rep.withFlags _,
        hf₄.outside.trans ⟨rfl, rfl, fun _ _ => rfl⟩, ?_⟩
      show some (cmpFlags (h₄.reg R) (h₄.reg S)) = _
      rw [hR, ho₄.2]
  obtain ⟨r₄, h₄, hrun₄, hrep₄, hout₄, hflags₄⟩ := hcompare
  obtain ⟨h₅, hrun₅, hb₅, hout₅, hflags₅⟩ := invalidateAll_flags (e := e) hrep₄
  exact ⟨r₄, h₅, hrun₁.bind (hrun₂.bind (hrun₃.bind (hrun₄.bind hrun₅))), hb₅,
    hout₂.trans (hf₃.outside.trans (hout₄.trans hout₅)), hflags₅.trans hflags₄⟩

end Comparison

/-! ## Emission -/

/-- An error that was set before the step is still set after it. -/
def Reports {α : Type} (x : Emit α) : Prop :=
  ∀ s a s', x s = .ok (a, s') → s'.gen.err = false → s.gen.err = false

/-- The note of the stub at `jump`. -/
def noteAtCode (env : Env) (jump : BitVec 64) (cond : Cond) : List FeInstr :=
  if env.flags.translateOptChain then .mov64ri .ax jump :: noteCode env (some cond) else []

/-- The code of a branch behind its comparison. -/
def branchCode (cond : Cond) (other finish : BitVec 64) (js ks : List FeInstr) : List FeInstr :=
  .jcc true cond other :: (js ++ .jmp false finish :: ks)

/-- Where the long jump of a branch leads, and the code behind the taken part. -/
inductive NotTaken (env : Env) (fin : RiscAddr → CacheLoc → Prop) (target : RiscAddr) (cond : Cond)
    (jump next : BitVec 64) : BitVec 64 → List FeInstr → Prop
  | direct {loc : CacheLoc} : fin target loc → NotTaken env fin target cond jump next loc []
  | noted : NotTaken env fin target cond jump next next
      (noteAtCode env jump cond ++ [.mov64miCell (.gp pc) target])

section Emission

variable {env : Env} {s s' : EmitState} {finished : RiscAddr → CacheLoc → Prop}

theorem reports_lift {g : Gen Unit} (hg : KeepsErr g) : Reports (Emit.lift g) := by
  intro s a s' h herr
  exact lift_err hg h herr

theorem Reports.bind {α β : Type} {x : Emit α} {k : α → Emit β} (hx : Reports x)
    (hk : ∀ a, Reports (k a)) : Reports (x >>= k) := by
  intro s b s' h herr
  obtain ⟨a, s₁, h₁, h₂⟩ := bind_ok h
  exact hx s a s₁ h₁ (hk a s₁ b s' h₂ herr)

theorem reports_replaceJump (slot : Nat) (cond : Option Cond) (jmpl : Bool) (target : BitVec 64) :
    Reports (Emit.replaceJump env slot cond jmpl target) := by
  intro s a s' h herr
  unfold Emit.replaceJump Emit.overwrite at h
  split at h
  · split at h
    · obtain ⟨-, rfl⟩ := Prod.mk.inj (Except.ok.inj h)
      exact herr
    · obtain ⟨-, rfl⟩ := Prod.mk.inj (Except.ok.inj h)
      exact herr
  · obtain ⟨-, rfl⟩ := Prod.mk.inj (Except.ok.inj h)
    cases herr

theorem reports_notTakenExit (target : RiscAddr) (slot : Nat) (cond : Cond)
    (o : Option CacheLoc) : Reports (notTakenExit env target slot cond o) := by
  cases o with
  | some loc => exact reports_replaceJump slot _ _ loc
  | none =>
      have hhere : Reports (Emit.replaceJumpHere env slot (some cond) true) := fun s =>
        reports_replaceJump slot _ _ _ s
      refine hhere.bind fun _ => Reports.bind (fun s a s' h herr => ?_) fun s₁ =>
        (reports_lift (keepsErr_onlyIf (keepsErr_chainAt _ _ _))).bind fun _ =>
          reports_lift (keepsErr_setPc _)
      obtain ⟨-, rfl⟩ := Prod.mk.inj (Except.ok.inj h)
      exact herr

theorem size_longJump (enc : Encoder) (cond : Option Cond) (target target' : BitVec 64) :
    enc.size (.jump cond true target) = enc.size (.jump cond true target') := by
  cases cond with
  | none => exact (enc.size_jmp ..).trans (enc.size_jmp ..).symm
  | some holds => exact (enc.size_jcc ..).trans (enc.size_jcc ..).symm

/-- The end of code depends on the sizes of its instructions only. -/
theorem after_congr_size {enc : Encoder} {a : BitVec 64} {pre post : List FeInstr} {i i' : FeInstr}
    (hsize : enc.size i = enc.size i') :
    enc.after a (pre ++ i :: post) = enc.after a (pre ++ i' :: post) := by
  rw [Encoder.after_append, Encoder.after_append, Encoder.after_cons, Encoder.after_cons, hsize]

/-- A long dummy jump. -/
theorem encDummy_long (cond : Cond) :
    Appends (Emit.encDummy env (some cond) true) s s.code.length
      [.jcc true cond (Emit.current env s)] s.gen := by
  have hform : env.enc.jumpForm (Emit.current env s) (some cond) true (Emit.current env s) =
      some (.jcc true cond (Emit.current env s)) := by
    have hdisplacement : Emit.current env s - (Emit.current env s + 6#64) = -6#64 := by bv_omega
    have hsize : env.enc.size (.jump (some cond) true (Emit.current env s)) = 6 :=
      env.enc.size_jcc ..
    unfold Encoder.jumpForm
    dsimp only
    rw [if_neg (fun hc => hc.1 rfl), if_pos]
    · rfl
    · rw [hsize, hdisplacement]
      rfl
  have hjump : Emit.encJump env (some cond) true (Emit.current env s) s =
      .ok ((), { s with code := s.code ++ [.jcc true cond (Emit.current env s)] }) := by
    unfold Emit.encJump
    rw [hform]
  show (Emit.encJump env (some cond) true (Emit.current env s) s).bind _ = _
  rw [hjump]
  rfl

/-- A long jump is encoded again in place. -/
theorem replaceJump_long (cond : Option Cond) {pre rest : List FeInstr} {dummy target : BitVec 64}
    (hcode : s.code = pre ++ .jump cond true dummy :: rest)
    (h : Emit.replaceJump env pre.length cond true target s = .ok ((), s'))
    (herr : s'.gen.err = false) :
    s' = { s with code := pre ++ .jump cond true target :: rest } := by
  have hslot : s.code[pre.length]? = some (.jump cond true dummy) := by
    rw [hcode]
    simp
  unfold Emit.replaceJump Emit.overwrite at h
  split at h
  · rename_i i hform
    obtain ⟨long, rfl, hlong⟩ := jumpForm_long hform
    obtain rfl := hlong rfl
    rw [hslot, Option.map_some, size_longJump env.enc cond dummy target, if_pos rfl] at h
    obtain ⟨-, rfl⟩ := Prod.mk.inj (Except.ok.inj h)
    rw [hcode]
    simp
  · obtain ⟨-, rfl⟩ := Prod.mk.inj (Except.ok.inj h)
    cases herr

theorem chainAt_emission (jump : BitVec 64) (cond : Cond) (s : GenState) :
    onlyIf env.flags.translateOptChain (chainAt env jump cond) s =
      ((), noteAtCode env jump cond, s) := by
  have hmnem : FeInstr.encodable (.mov32miCell .chainType (env.enc.jumpMnem (some cond))) = true :=
    env.enc.jumpMnem_fits _
  unfold noteAtCode
  by_cases hchain : env.flags.translateOptChain = true
  · rw [if_pos hchain]
    unfold onlyIf
    rw [if_pos hchain]
    exact then_emission (feEnc64_accepted rfl s)
      (then_emission (feEnc64_accepted rfl s) (feEnc64_accepted hmnem s))
  · rw [if_neg hchain]
    exact onlyIf_emission_neg hchain s

/-- The way on where the branch is not taken. -/
theorem notTakenExit_of_err {target : RiscAddr} {cond : Cond} {o : Option CacheLoc}
    {pre rest : List FeInstr} {dummy : BitVec 64}
    (hcode : s.code = pre ++ .jcc true cond dummy :: rest)
    (h : notTakenExit env target pre.length cond o s = .ok ((), s')) (herr : s'.gen.err = false)
    (ho : ∀ loc, o = some loc → finished target loc) :
    ∃ other ks, NotTaken env finished target cond (env.enc.after s.start pre)
        (env.enc.after s.start (pre ++ .jcc true cond other :: rest)) other ks ∧
      s' = { s with code := pre ++ .jcc true cond other :: (rest ++ ks) } := by
  cases o with
  | some loc =>
      obtain rfl := replaceJump_long (some cond) hcode h herr
      refine ⟨loc, [], .direct (ho loc rfl), ?_⟩
      rw [List.append_nil]
      rfl
  | none =>
      obtain ⟨_, s₁, h₁, h⟩ := bind_ok h
      obtain ⟨s₁', s₂, h₂, h⟩ := bind_ok h
      obtain ⟨hsame, rfl⟩ := Prod.mk.inj (Except.ok.inj h₂)
      subst hsame
      obtain ⟨_, s₃, h₃, h₄⟩ := bind_ok h
      -- errors would be known in the end
      have herr₃ := lift_err (keepsErr_setPc target) h₄ herr
      have herr₁ := lift_err (keepsErr_onlyIf (keepsErr_chainAt env _ _)) h₃ herr₃
      obtain rfl := replaceJump_long (some cond) hcode h₁ herr₁
      obtain rfl := lift_ok h₃
      obtain rfl := lift_ok h₄
      have hset := setPc_of_err herr
      have hjump : Emit.addressOf env { s with
          code := pre ++ FeInstr.jump (some cond) true (Emit.current env s) :: rest } pre.length =
          env.enc.after s.start pre := by
        unfold Emit.addressOf
        rw [List.take_left']
        rfl
      rw [hjump] at hset ⊢
      rw [chainAt_emission] at hset ⊢
      have hother : Emit.current env s =
          env.enc.after s.start (pre ++ .jcc true cond (Emit.current env s) :: rest) := by
        show env.enc.after s.start s.code = _
        rw [hcode]
        exact after_congr_size ((env.enc.size_jcc ..).trans (env.enc.size_jcc ..).symm)
      refine ⟨Emit.current env s,
        noteAtCode env (env.enc.after s.start pre) cond ++ [.mov64miCell (.gp pc) target], ?_, ?_⟩
      · have hnoted : NotTaken env finished target cond (env.enc.after s.start pre)
          (Emit.current env s) (Emit.current env s) _ := .noted
        rw [← hother]
        exact hnoted
      · dsimp only at hset ⊢
        rw [hset]
        simp only [List.append_assoc, List.cons_append]
        rfl

theorem NotTaken.codeSize_lt {target : RiscAddr} {cond : Cond} {jump next other : BitVec 64}
    {ks : List FeInstr} (h : NotTaken env finished target cond jump next other ks) :
    env.enc.codeSize ks < 128 := by
  have hle := env.enc.codeSize_le ks
  have hlength : ks.length ≤ 4 := by
    cases h with
    | direct hloc => exact Nat.zero_le 4
    | noted =>
        unfold noteAtCode
        split
        · exact Nat.le_refl 4
        · exact Nat.le_add_left 1 3
  omega

/-- The code of a branch behind its comparison, where the encoder has accepted all of it. -/
theorem setPc2_of_err {entry : RiscInstr} {cond : Cond} (pre : List FeInstr) {dummy : BitVec 64}
    {f : RiscAddr → Option CacheLoc} (hcode : s.code = pre ++ [.jcc true cond dummy])
    (hinv : CodeCache.Inv s.cache f)
    (hfin : ∀ a loc, f a = some loc → loc ≠ translationStarted → finished a loc)
    (h : setPc2 env entry pre.length cond s = .ok ((), s')) (herr : s'.gen.err = false) :
    ∃ js ks other finish, ExitCode env finished (entry.addr + entry.imm) js ∧
      NotTaken env finished (entry.addr + 4#64) cond (env.enc.after s.start pre)
        (env.enc.after s.start (pre ++ .jcc true cond other :: (js ++ [.jmp false finish]))) other
        ks ∧
      s'.code = pre ++ branchCode cond other finish js ks ∧
      finish = env.enc.after s.start s'.code ∧ s'.gen = s.gen ∧ s'.garbled = s.garbled := by
  obtain ⟨o, s₁, h₁, h⟩ := bind_ok h
  obtain ⟨_, s₂, h₂, h⟩ := bind_ok h
  obtain ⟨slot, s₃, h₃, h⟩ := bind_ok h
  obtain ⟨o', s₄, h₄, h⟩ := bind_ok h
  obtain ⟨_, s₅, h₅, h₆⟩ := bind_ok h
  -- both lookups find finished code only
  obtain ⟨_, hadds, ho⟩ := lookupFinished_adds env hinv (entry.addr + entry.imm)
  obtain ⟨rfl, hstart₁, hcode₁, hgen₁, hgarbled₁, hcache₁⟩ := hadds.result h₁
  rw [List.append_nil] at hcode₁
  have hinv₂ : CodeCache.Inv s₂.cache f := by
    cases o with
    | some loc => exact ((Emit.keeps_encJump env none false loc f s₁ (hcache₁ f hinv)).1 _ _ h₂)
    | none => exact ((Emit.keeps_lift _ f s₁ (hcache₁ f hinv)).1 _ _ h₂)
  have hdummy : Emit.encDummy env none false s₂ = _ := encDummy_short none
  obtain ⟨rfl, rfl⟩ := Prod.mk.inj (Except.ok.inj (h₃.symm.trans hdummy))
  obtain ⟨_, hadds', ho'⟩ := lookupFinished_adds env
    (s := { s₂ with code := s₂.code ++ [.jump none false (Emit.current env s₂)] }) hinv₂
    (entry.addr + 4#64)
  obtain ⟨rfl, hstart₄, hcode₄, hgen₄, hgarbled₄, -⟩ := hadds'.result h₄
  rw [List.append_nil] at hcode₄
  dsimp only at hstart₄ hcode₄ hgen₄ hgarbled₄
  -- an error on the way would still be set
  have herr₅ : s₅.gen.err = false := reports_replaceJump _ _ _ _ _ _ _ h₆ herr
  have herr₂ : s₂.gen.err = false :=
    hgen₄ ▸ reports_notTakenExit _ _ _ _ _ _ _ h₅ herr₅
  obtain ⟨js, hjs, rfl⟩ := jalExit_of_err
    (show jalExit env (entry.addr + entry.imm) o s₁ = _ by
      cases o with
      | some loc => exact h₂
      | none => exact h₂) herr₂ fun loc hloc => hfin _ _ (ho loc hloc).2.1 (ho loc hloc).2.2
  have hcode₄' : s₄.code = pre ++ .jcc true cond dummy ::
      (js ++ [.jump none false (Emit.current env { s₁ with code := s₁.code ++ js })]) := by
    rw [hcode₄, hcode₁, hcode]
    simp only [List.append_assoc, List.cons_append, List.nil_append]
  obtain ⟨other, ks, hks, rfl⟩ := notTakenExit_of_err hcode₄' h₅ herr₅
    fun loc hloc => hfin _ _ (ho' loc hloc).2.1 (ho' loc hloc).2.2
  -- the jump over the other part is short
  have hlength : (s₁.code ++ js).length = (pre ++ .jcc true cond other :: js).length := by
    rw [hcode₁, hcode]
    simp only [List.length_append, List.length_cons, List.length_nil]
    omega
  have hslot : (pre ++ FeInstr.jcc true cond other ::
      (js ++ [.jump none false (Emit.current env { s₁ with code := s₁.code ++ js })] ++ ks)) =
      (pre ++ .jcc true cond other :: js) ++
        .jump none false (Emit.current env { s₁ with code := s₁.code ++ js }) :: ks := by
    simp only [List.append_assoc, List.cons_append, List.nil_append]
  rw [hlength] at h₆
  let mid : EmitState := { s₄ with
    code := pre ++ .jcc true cond other ::
      (js ++ [.jump none false (Emit.current env { s₁ with code := s₁.code ++ js })] ++ ks) }
  have hfinish := @replaceJumpHere_short env mid _ _ _ _ hslot hks.codeSize_lt
  obtain ⟨-, rfl⟩ := Prod.mk.inj (Except.ok.inj (h₆.symm.trans hfinish))
  dsimp only at hks ⊢
  rw [hstart₄, hstart₁] at hks
  refine ⟨js, ks, other, Emit.current env mid, hjs, ?_, ?_, ?_, hgen₄.trans hgen₁,
    hgarbled₄.trans hgarbled₁⟩
  · have hsame : ∀ finish finish' : BitVec 64, env.enc.after s.start
        (pre ++ FeInstr.jcc true cond other :: (js ++ [.jump none false finish])) =
        env.enc.after s.start (pre ++ .jcc true cond other :: (js ++ [.jmp false finish'])) := by
      intro finish finish'
      rw [← List.cons_append, ← List.append_assoc, ← List.cons_append, ← List.append_assoc]
      exact after_congr_size ((size_shortJump ..).trans (size_shortJmp ..).symm)
    rw [hsame] at hks
    exact hks
  · unfold branchCode
    simp only [List.append_assoc, List.cons_append]
    rfl
  · show env.enc.after s₄.start (pre ++ _ :: (_ ++ ks)) = _
    rw [hslot, hstart₄, hstart₁]
    exact after_congr_size ((size_shortJump ..).trans (size_shortJump ..).symm)

end Emission

/-! ## Runs -/

section Leaving

variable {env : Env} {program : Program} {fin : RiscAddr → CacheLoc → Prop} {code : CodeAt}
  {entry : RiscInstr} {stubs : BitVec 64 → Option Cond → Prop} {c : GuestAt}
  {a next other finish : BitVec 64} {h h₀ : HostState} {cond : Cond} {js ks : List FeInstr}
  {flags : X86Flags}

theorem noteAtCode_parked (env : Env) (cond : Cond) (jump : BitVec 64) (target : RiscAddr)
    (h : HostState) :
    ∃ h', runCode FeInstr.exec (noteAtCode env jump cond ++ [.mov64miCell (.gp pc) target]) h =
      some h' ∧ Parked env jump (some cond) target h h' := by
  unfold noteAtCode
  by_cases hchain : env.flags.translateOptChain = true
  · rw [if_pos hchain]
    refine ⟨_, ?_, parked_notedState jump (some cond) target h⟩
    show (some (h.setReg .ax jump)).bind (runCode FeInstr.exec
      (noteCode env (some cond) ++ [.mov64miCell (.gp pc) target])) = _
    rw [Option.bind_some, runCode_append, noteCode_runs]
    rfl
  · rw [if_neg hchain]
    exact ⟨_, rfl, parked_unnoted hchain jump (some cond) target h⟩

theorem step_jcc (enc : Encoder) {long : Bool} {target : BitVec 64}
    (hcode : code a = some (.jcc long cond target)) (hflags : h.flags = some flags) :
    enc.step code ⟨a, h⟩ = some ⟨if cond.holds flags then target
      else a + BitVec.ofNat 64 (enc.size (.jcc long cond target)), h⟩ := by
  unfold Encoder.step
  rw [hcode]
  show h.flags.map _ = _
  rw [hflags]
  show some (if cond.holds flags then (⟨target, h⟩ : Cpu) else _) = _
  split
  · rfl
  · rfl

/-- Either there is no code for this way, or it notes the jump. -/
theorem NotTaken.cases {target : RiscAddr} (h : NotTaken env fin target cond a next other ks) :
    (fin target other ∧ ks = []) ∨
      (other = next ∧ ks = noteAtCode env a cond ++ [.mov64miCell (.gp pc) target]) := by
  cases h with
  | direct hfin => exact .inl ⟨hfin, rfl⟩
  | noted => exact .inr ⟨rfl, rfl⟩

theorem NotTaken.mono {fin' : RiscAddr → CacheLoc → Prop} {target : RiscAddr}
    (h : NotTaken env fin target cond a next other ks) (hle : ∀ a loc, fin a loc → fin' a loc) :
    NotTaken env fin' target cond a next other ks := by
  cases h with
  | direct hfin => exact .direct (hle _ _ hfin)
  | noted => exact .noted

/-- A branch leaves the block for where the comparison says. -/
theorem branchCode_leaves (hmnem : entry.mnem ≠ .ecall)
    (hjs : ExitCode env fin (entry.addr + entry.imm) js)
    (hks : NotTaken env fin (entry.addr + 4#64) cond a
      (env.enc.after a (.jcc true cond other :: (js ++ [.jmp false finish]))) other ks)
    (hfinish : finish = env.enc.after a (branchCode cond other finish js ks))
    (hlinked : HoldsLinked env.enc code (fun cond loc => fin (exitTarget entry cond) loc) a
      (branchCode cond other finish js ks ++ (boundaryCode env.flags ++ endingCode env false)))
    (htarget : exitTarget entry none = entry.addr + entry.imm) (hstub : stubs a (some cond))
    (hstub' : ∀ post, js = .leaRip .ax :: post →
      stubs (env.enc.after a [.jcc true cond other]) none)
    (hflags : h.flags = some flags) (hb : AtBoundary c.state h)
    (haddr : c.addr = if !cond.holds flags then entry.addr + entry.imm else entry.addr + 4#64)
    (hkept : Kept h₀ h) (hend : h.cell .chainEnd = h₀.cell .chainEnd) :
    Arrives (env.enc.step code) (Leaves env program fin code entry stubs c h₀) ⟨a, h⟩ := by
  obtain ⟨hbranch, hending⟩ := allAt_append.1 hlinked
  rw [← hfinish] at hending
  obtain ⟨hjcc, hrest⟩ := hbranch
  obtain ⟨hheld, hjmp, hheld'⟩ := allAt_append.1 hrest
  -- the jump that is held leads to `other`, or to code that was linked since
  obtain ⟨target, hcode, hway⟩ : ∃ target, code a = some (.jcc true cond target) ∧
      (target = other ∨ fin (entry.addr + 4#64) target) := by
    rcases hjcc with hjcc | ⟨cond', loc, hcond, hloc, hjcc⟩
    · exact ⟨other, hjcc, .inl rfl⟩
    · obtain rfl : some cond = cond' := Option.some.inj hcond
      exact ⟨loc, hjcc, .inr hloc⟩
  have hfirst : env.enc.Reaches code ⟨a, h⟩ _ := reaches_jcc hcode hflags
  rw [env.enc.size_jcc] at hfirst
  rw [env.enc.size_jcc] at hheld hjmp hheld'
  have hbehind : env.enc.after a [.jcc true cond other] =
      a + BitVec.ofNat 64 (if true then 6 else 2) := by
    rw [Encoder.after_cons, env.enc.size_jcc]
    exact Encoder.after_nil ..
  cases hholds : cond.holds flags with
  | true =>
      rw [hholds, if_pos rfl] at hfirst
      rw [hholds, if_neg (by decide)] at haddr
      have hjump : ∀ loc, target = loc → fin (entry.addr + 4#64) loc →
          Arrives (env.enc.step code) (Leaves env program fin code entry stubs c h₀) ⟨a, h⟩ := by
        rintro loc rfl hfin
        have hstep := step_jcc env.enc (h := h) hcode hflags
        rw [hholds, if_pos rfl] at hstep
        exact .here ⟨hb, hkept, .jump hmnem ⟨target, haddr ▸ hfin, hstep⟩ hend⟩
      rcases hway with hother | hfin
      · rcases hks.cases with ⟨hfin, -⟩ | ⟨hnext, hnote⟩
        · exact hjump other hother hfin
        · -- the guest's next address is stored, with a note of this jump
          obtain ⟨h', hrun, hp⟩ := noteAtCode_parked env cond a
            (entry.addr + 4#64) h
          rw [← hnote] at hrun
          have hbehind : env.enc.after (a + BitVec.ofNat 64 (if true then 6 else 2)) js +
              BitVec.ofNat 64 (env.enc.size (.jmp false finish)) = other := by
            rw [hnext, Encoder.after_cons, env.enc.size_jcc, Encoder.after_append,
              Encoder.after_cons, Encoder.after_nil]
          rw [hbehind] at hheld'
          rw [hother] at hfirst
          have hend' : env.enc.after other ks = finish := by
            rw [hfinish, ← hbehind]
            unfold branchCode
            rw [Encoder.after_cons, env.enc.size_jcc, Encoder.after_append, Encoder.after_cons]
          rw [← hend'] at hending
          refine .steps hfirst (.steps (HoldsLinked.reaches hheld' hrun) ?_)
          exact hp.leaves hmnem hending (fun _ => hstub) rfl hb haddr hkept
      · exact hjump target rfl hfin
  | false =>
      rw [hholds, if_neg Bool.false_ne_true] at hfirst
      rw [hholds, if_pos (by decide)] at haddr
      refine .steps hfirst ?_
      obtain ⟨m, hreach, hout⟩ := hjs.arrives hheld (fun loc hfin => htarget ▸ hfin) h
      refine .steps hreach ?_
      rcases hout with ⟨hjump, hhost⟩ | ⟨hrip, hp, hlea⟩
      · rw [← hhost] at hb hkept hend
        exact .here ⟨hb, hkept, .jump hmnem (haddr ▸ hjump) hend⟩
      · -- the end of the taken part jumps over the other one
        have hjump : code m.rip = some (.jmp false finish) := by
          rw [hrip]
          rcases hjmp with hjmp | ⟨cond', loc, hcond, -⟩
          · exact hjmp
          · cases hcond
        refine .steps (reaches_jmp (h := m.host) hjump) ?_
        refine hp.leaves hmnem hending (fun hchain => ?_) htarget hb haddr hkept
        obtain ⟨post, hpost⟩ := hlea hchain
        rw [← hbehind]
        exact hstub' post hpost

end Leaving

theorem emitsTail_branch {env : Env} {program : Program} {finished : RiscAddr → CacheLoc → Prop}
    {entry : RiscInstr} {e₀ : EmitState} {cond : Cond} (hcond : skipCond entry.mnem = some cond)
    (hrs1 : entry.regSrc1 < 32) (hrs2 : entry.regSrc2 < 32) (hcode : e₀.code = [])
    (hwf : e₀.gen.rInfo.WellFormed) {f : RiscAddr → Option CacheLoc}
    (hinv : CodeCache.Inv e₀.cache f)
    (hfin : ∀ a loc, f a = some loc → loc ≠ translationStarted → finished a loc) :
    EmitsTail env program finished entry (fun g c => ∃ taken,
      entry.branchTaken (g.read entry.regSrc1) (g.read entry.regSrc2) = some taken ∧
        c = ⟨g, if taken then entry.addr + entry.imm else entry.addr + 4#64⟩) e₀ := by
  intro e₁ h hend
  have hecall : decide (entry.mnem = .ecall) = false :=
    decide_eq_false fun hmnem => by rw [hmnem] at hcond; cases hcond
  have htarget : exitTarget entry none = entry.addr + entry.imm :=
    if_neg fun hmnem => by rw [hmnem] at hcond; cases hcond
  rw [hecall] at hend ⊢
  unfold translateRiscInstr at h
  rw [dispatchInstr_branch hcond] at h
  obtain ⟨_, s₃, h, hboundary⟩ := bind_ok h
  obtain ⟨_, s₁, h₁, h⟩ := bind_ok h
  obtain ⟨slot, s₂, h₂, h₃⟩ := bind_ok h
  have herr₃ := lift_err (keepsErr_onlyIf keepsErr_boundary) hboundary
    ((keepsErr_blockEnd env false).before hend)
  -- the comparison leaves empty replacements, whatever host runs it
  obtain ⟨r', _, ⟨is, hgen, -⟩, -⟩ := cmpRs1Rs2_runs env e₀.gen.err
    (represents_self hwf ⟨fun _ => 0#64, none, fun _ => 0#64, fun _ => 0#8, []⟩) hrs1 hrs2
  obtain rfl := lift_ok h₁
  rw [show e₀.gen = ⟨e₀.gen.rInfo, e₀.gen.err⟩ from rfl, hgen, hcode, List.nil_append] at h₂
  obtain ⟨rfl, rfl⟩ := Prod.mk.inj (Except.ok.inj (h₂.symm.trans (encDummy_long cond)))
  obtain ⟨js, ks, other, finish, hjs, hks, hcode₃, hfinish, hgen₃, hgarbled⟩ :=
    setPc2_of_err is rfl (by exact hinv) hfin h₃ herr₃
  obtain rfl := lift_ok hboundary
  rw [boundary_emission]
  refine ⟨hgarbled, ?_⟩
  dsimp only at hks hfinish hgen₃ ⊢
  rw [hgen₃, blockEnd_empty env _ (cleared_empty r'), List.append_assoc, hcode₃]
  rw [hcode₃, Encoder.after_append] at hfinish
  rw [Encoder.after_append] at hks
  intro fin code g h c hle hlinked hrep hfollows _
  obtain ⟨taken, htaken, rfl⟩ := hfollows
  obtain ⟨r'', h', ⟨is', hgen', hrun⟩, hb, hout, hflags⟩ := cmpRs1Rs2_runs env
    e₀.gen.err hrep hrs1 hrs2
  obtain rfl : is' = is := congrArg (fun p => p.2.1) (hgen'.symm.trans hgen)
  rw [List.append_assoc] at hlinked ⊢
  obtain ⟨hheld, hheld'⟩ := allAt_append.1 hlinked
  refine .steps (HoldsLinked.reaches hheld hrun) ?_
  have hskip := Option.some.inj (htaken.symm.trans (branchTaken_skip hcond _ _))
  have hmnem : entry.mnem ≠ .ecall := fun h => by
    rw [h] at hcond
    cases hcond
  refine branchCode_leaves hmnem (hjs.mono hle) (hks.mono hle) hfinish hheld' htarget ?_ ?_ hflags
    hb ?_ hout.kept (hout.cell _ (by simp [isRegFile]))
  · exact ⟨is', .jcc true cond other, _, rfl, rfl, rfl⟩
  · rintro post rfl
    refine ⟨is' ++ [.jcc true cond other], .leaRip .ax, (post ++ .jmp false finish :: ks) ++
      (boundaryCode env.flags ++ endingCode env false), ?_, ?_, rfl⟩
    · simp only [branchCode, List.append_assoc, List.cons_append, List.nil_append]
    · rw [Encoder.after_append]
  · rw [hskip]

end RiaJit.Translate
