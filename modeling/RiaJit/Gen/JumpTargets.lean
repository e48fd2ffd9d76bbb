import RiaJit.Gen.EmittedCode
import RiaJit.Gen.Translate
import RiaJit.Lib.StateExcept

/-!
# Where direct jumps lead

The targets of the jumps that the code of an instruction contains: those of `JMP` and
`Jcc`, and a constant that is loaded into `CX` right before a jump to `CX`. They are
places in the code itself or what `lookupFinished` has returned, so never the mark of a
translation in progress.
-/

set_option autoImplicit false

namespace RiaJit.Translate

open EmitLogic StateExcept X86

/-! ## Targets -/

/-- Whether an instruction is a jump. -/
def isJump : FeInstr → Bool
  | .jmp _ _ | .jcc _ _ _ | .jmpr _ => true
  | _ => false

/-- The target of an instruction that another one may follow. -/
def jumpTarget : FeInstr → Option FeInstr → Option (BitVec 64)
  | .jmp _ target, _ => some target
  | .jcc _ _ target, _ => some target
  | .mov64ri .cx target, some (.jmpr .cx) => some target
  | _, _ => none

/-- The targets of the direct jumps of a sequence. -/
def directTargets : List FeInstr → List (BitVec 64)
  | [] => []
  | i :: is => (jumpTarget i is.head?).toList ++ directTargets is

/-- The last instruction loads no constant into `CX`. -/
def EndsPlain (code : List FeInstr) : Prop := ∀ target, code.getLast? ≠ some (.mov64ri .cx target)

/-- Code that is appended adds no target to an instruction, unless a jump through `rcx` comes to
follow a constant in it. -/
theorem jumpTarget_head (i : FeInstr) (is js : List FeInstr)
    (h : js.head? ≠ some (.jmpr .cx) ∨ is ≠ [] ∨ ∀ target, i ≠ .mov64ri .cx target) :
    jumpTarget i (is ++ js).head? = jumpTarget i is.head? := by
  cases is with
  | cons j is => rfl
  | nil =>
      cases i with
      | mov64ri dst target =>
          cases dst with
          | cx =>
              rcases h with h | h | h
              · cases js with
                | nil => rfl
                | cons j js =>
                    show jumpTarget (.mov64ri .cx target) (some j) = none
                    unfold jumpTarget
                    split
                    · contradiction
                    · contradiction
                    · rename_i heq
                      exact absurd heq h
                    · rfl
              · exact absurd rfl h
              · exact absurd rfl (h target)
          | _ => rfl
      | _ => rfl

/-- Sequences do not form a jump together unless the first one ends with a load of `CX`
and the second one starts with a jump to it. -/
theorem directTargets_append {is js : List FeInstr}
    (h : js.head? ≠ some (.jmpr .cx) ∨ EndsPlain is) :
    directTargets (is ++ js) = directTargets is ++ directTargets js := by
  induction is with
  | nil => rfl
  | cons i is ih =>
      have hrest : js.head? ≠ some (.jmpr .cx) ∨ EndsPlain is := by
        rcases h with h | h
        · exact .inl h
        · cases is with
          | nil => exact .inr nofun
          | cons j is => exact .inr fun target => h target
      have hhead := jumpTarget_head i is js <| by
        rcases h with h | h
        · exact .inl h
        · cases is with
          | nil => exact .inr (.inr fun target heq => h target (by rw [heq]; rfl))
          | cons j is => exact .inr (.inl nofun)
      show (jumpTarget i (is ++ js).head?).toList ++ directTargets (is ++ js) = _
      rw [hhead, ih hrest, ← List.append_assoc]
      rfl

/-- Straight code jumps nowhere. -/
theorem directTargets_straight {is : List FeInstr} (h : ∀ i ∈ is, isJump i = false) :
    directTargets is = [] := by
  induction is with
  | nil => rfl
  | cons i is ih =>
      have hi := h i List.mem_cons_self
      have hrest := ih fun j hj => h j (List.mem_cons_of_mem i hj)
      show (jumpTarget i is.head?).toList ++ directTargets is = []
      rw [hrest, List.append_nil]
      unfold jumpTarget
      split
      · contradiction
      · contradiction
      · rename_i heq
        have hjump := h (.jmpr .cx) (List.mem_cons_of_mem _ (List.mem_of_head? heq))
        contradiction
      · rfl

/-- A jump in the place of another instruction. -/
theorem directTargets_set (code : List FeInstr) (slot : Nat) (cond : Option Cond) (long : Bool)
    (target : BitVec 64) :
    ∀ t ∈ directTargets (code.set slot (.jump cond long target)),
      t ∈ directTargets code ∨ t = target := by
  have hjump : ∀ next, jumpTarget (.jump cond long target) next = some target := by
    intro next
    cases cond with
    | none => rfl
    | some cond => rfl
  have hbefore : ∀ i, ∀ t ∈ jumpTarget i (some (.jump cond long target)),
      ∀ next, t ∈ jumpTarget i next := by
    intro i t ht next
    unfold jumpTarget at ht
    split at ht
    · exact ht
    · exact ht
    · rename_i heq
      cases cond with
      | none => exact absurd heq nofun
      | some cond => exact absurd heq nofun
    · exact absurd ht nofun
  -- a target is read off an instruction and the one after it, so two places can change
  induction code generalizing slot with
  | nil => exact fun t ht => .inl ht
  | cons i is ih =>
      intro t ht
      cases slot with
      | zero =>
          rcases List.mem_append.1 ht with ht | ht
          · rw [hjump] at ht
            exact .inr (List.mem_singleton.1 ht)
          · exact .inl (List.mem_append_right _ ht)
      | succ slot =>
          rcases List.mem_append.1 ht with ht | ht
          · refine .inl (List.mem_append_left _ ?_)
            cases is with
            | nil => exact ht
            | cons j is =>
                cases slot with
                | zero =>
                    rw [Option.mem_toList] at ht ⊢
                    exact hbefore i t ht _
                | succ slot => exact ht
          · rcases ih slot t ht with h | h
            · exact .inl (List.mem_append_right _ h)
            · exact .inr h

/-! ## Steps of the emission -/

section Steps

variable (env : Env) {α β : Type}

/-- A target that is a place in the code so far, or not a mark. -/
def TargetOk (s : EmitState) (target : BitVec 64) : Prop :=
  target ≠ translationStarted ∨ ∃ k ≤ env.enc.codeSize s.code, target = s.start + BitVec.ofNat 64 k

/-- The direct jumps of the code so far lead into the code or to what is not a mark. -/
def Direct (start : BitVec 64) (s : EmitState) : Prop :=
  s.start = start ∧ ∀ target ∈ directTargets s.code, TargetOk env s target

/-- A step keeps this. -/
def Leads (x : Emit α) : Prop :=
  ∀ start, Spec (Direct env start) x (fun _ => Direct env start) fun _ => True

variable {env}

/-- Two steps that keep the jumps in order do so together. -/
theorem Leads.bind {x : Emit α} {k : α → Emit β} (hx : Leads env x)
    (hk : ∀ a, Leads env (k a)) : Leads env (x >>= k) :=
  fun start => (hx start).bind fun a => hk a start

theorem Leads.ret (a : α) : Leads env (pure a) := fun _ => Spec.ret fun _ h => h

theorem Leads.ite {c : Prop} [Decidable c] {x y : Emit α} (hx : Leads env x)
    (hy : Leads env y) : Leads env (if c then x else y) :=
  fun start => Spec.ite (fun _ => hx start) fun _ => hy start

/-- A step that is left out adds no jump. -/
theorem leads_onlyIf {c : Prop} [Decidable c] {x : Emit Unit} (hx : Leads env x) :
    Leads env (Emit.onlyIf c x) :=
  .ite hx (.ret ())

theorem leads_get : Leads env (get : Emit EmitState) := by
  intro start s h
  refine ⟨fun a s' hrun => ?_, fun _ _ => trivial⟩
  obtain ⟨-, rfl⟩ := Prod.mk.inj (Except.ok.inj hrun)
  exact h

/-- A longer code has the places of a shorter one. -/
theorem TargetOk.mono {s s' : EmitState} {target : BitVec 64} (h : TargetOk env s target)
    (hstart : s'.start = s.start) (hle : env.enc.codeSize s.code ≤ env.enc.codeSize s'.code) :
    TargetOk env s' target := by
  rcases h with h | ⟨k, hk, rfl⟩
  · exact .inl h
  · exact .inr ⟨k, hk.trans hle, by rw [hstart]⟩

/-- The address behind the code is a place in the code. -/
theorem targetOk_current (s : EmitState) : TargetOk env s (Emit.current env s) :=
  .inr ⟨_, Nat.le_refl _, rfl⟩

/-- Code is appended that forms no jump with the code before it. -/
theorem Direct.append {start : BitVec 64} {s : EmitState} (h : Direct env start s)
    {is : List FeInstr} {g : GenState} {c : CodeCache}
      (hjoin : is.head? ≠ some (.jmpr .cx) ∨ EndsPlain s.code)
    (his : ∀ target ∈ directTargets is, TargetOk env s target) :
    Direct env start { s with code := s.code ++ is, gen := g, cache := c } := by
  refine ⟨h.1, fun target ht => ?_⟩
  have hle : env.enc.codeSize s.code ≤ env.enc.codeSize (s.code ++ is) := by
    rw [X86.Encoder.codeSize_append]
    omega
  change target ∈ directTargets (s.code ++ is) at ht
  rw [directTargets_append hjoin] at ht
  rcases List.mem_append.1 ht with ht | ht
  · exact (h.2 target ht).mono rfl hle
  · exact (his target ht).mono rfl hle

/-- A generator that emits no jumps. -/
def Straight (g : Gen α) : Prop := ∀ s, ∀ i ∈ (g s).2.1, isJump i = false

/-- Straight code adds no jump. -/
theorem leads_lift {g : Gen α} (hg : Straight g) : Leads env (Emit.lift g) := by
  intro start s h
  refine ⟨fun a s' hrun => ?_, fun _ _ => trivial⟩
  obtain ⟨-, rfl⟩ := Prod.mk.inj (Except.ok.inj hrun)
  refine h.append (.inl fun hhead => ?_) fun target ht => ?_
  · have hjump := hg s.gen _ (List.mem_of_head? hhead)
    contradiction
  · rw [directTargets_straight (hg s.gen)] at ht
    exact absurd ht List.not_mem_nil

/-- A step that fails adds nothing. -/
theorem leads_fail : Leads env Emit.fail :=
  leads_lift fun _ _ h => absurd h List.not_mem_nil

/-- What the assembler answers for a jump is that jump, short or long. -/
theorem jumpForm_some {enc : X86.Encoder} {current target : BitVec 64} {cond : Option Cond}
    {jmpl : Bool} {i : FeInstr} (h : enc.jumpForm current cond jmpl target = some i) :
    ∃ long, i = .jump cond long target := by
  unfold X86.Encoder.jumpForm at h
  dsimp only at h
  split at h
  · exact ⟨false, (Option.some.inj h).symm⟩
  · split at h
    · exact ⟨true, (Option.some.inj h).symm⟩
    · exact absurd h nofun

/-- A direct jump has one target, whichever form it takes. -/
theorem directTargets_jump (cond : Option Cond) (long : Bool) (target : BitVec 64) :
    directTargets [.jump cond long target] = [target] := by
  cases cond with
  | none => rfl
  | some cond => rfl

theorem jump_ne_jmpr (cond : Option Cond) (long : Bool) (target : BitVec 64) :
    [FeInstr.jump cond long target].head? ≠ some (.jmpr .cx) := by
  cases cond with
  | none => exact nofun
  | some cond => exact nofun

/-- A jump to a target that is a place in the code or not a mark. -/
theorem encJump_spec (start : BitVec 64) (cond : Option Cond) (jmpl : Bool) (target : BitVec 64) :
    Spec (fun s => Direct env start s ∧ TargetOk env s target) (Emit.encJump env cond jmpl target)
      (fun _ => Direct env start) fun _ => True := by
  rintro s ⟨h, htarget⟩
  unfold Emit.encJump
  split
  · rename_i i hform
    obtain ⟨long, rfl⟩ := jumpForm_some hform
    refine ⟨fun a s' hrun => ?_, fun _ _ => trivial⟩
    obtain ⟨-, rfl⟩ := Prod.mk.inj (Except.ok.inj hrun)
    refine h.append (.inl (jump_ne_jmpr _ _ _)) fun t ht => ?_
    rw [directTargets_jump, List.mem_singleton] at ht
    rwa [ht]
  · exact leads_fail start s h

/-- A jump may be emitted to every address but the mark of a translation in progress. -/
theorem leads_encJump (cond : Option Cond) (jmpl : Bool) {target : BitVec 64}
    (htarget : target ≠ translationStarted) : Leads env (Emit.encJump env cond jmpl target) :=
  fun start => (encJump_spec start cond jmpl target).conseq (fun _ h => ⟨h, .inl htarget⟩)
    fun _ _ h => h

/-- A jump that is written over later leads to itself until then. -/
theorem leads_encDummy (cond : Option Cond) (jmpl : Bool) :
    Leads env (Emit.encDummy env cond jmpl) := by
  intro start s h
  obtain ⟨hok, -⟩ := encJump_spec start cond jmpl (Emit.current env s) s ⟨h, targetOk_current s⟩
  unfold Emit.encDummy
  cases hrun : Emit.encJump env cond jmpl (Emit.current env s) s with
  | error e => exact ⟨fun a s' h => (nomatch h), fun _ _ => trivial⟩
  | ok p =>
      refine ⟨fun a s' h => ?_, fun _ _ => trivial⟩
      obtain ⟨-, rfl⟩ := Prod.mk.inj (Except.ok.inj h)
      exact hok p.1 p.2 hrun

/-- An instruction of the same size in the place of another leaves the rest where it is. -/
theorem codeSize_set {enc : X86.Encoder} {code : List FeInstr} {slot : Nat} {i : FeInstr}
    (h : code[slot]?.map enc.size = some (enc.size i)) :
    enc.codeSize (code.set slot i) = enc.codeSize code := by
  induction code generalizing slot with
  | nil => rfl
  | cons j code ih =>
      cases slot with
      | zero =>
          have hsize : enc.size j = enc.size i := Option.some.inj h
          rw [List.set_cons_zero, X86.Encoder.codeSize_cons, X86.Encoder.codeSize_cons, hsize]
      | succ slot =>
          rw [List.set_cons_succ, X86.Encoder.codeSize_cons, X86.Encoder.codeSize_cons, ih h]

/-- A dummy becomes a jump to a target that is allowed, and no other target changes. -/
theorem replaceJump_spec (start : BitVec 64) (slot : Nat) (cond : Option Cond) (jmpl : Bool)
    (target : BitVec 64) :
    Spec (fun s => Direct env start s ∧ TargetOk env s target)
      (Emit.replaceJump env slot cond jmpl target) (fun _ => Direct env start) fun _ => True := by
  rintro s ⟨h, htarget⟩
  unfold Emit.replaceJump
  split
  · rename_i i hform
    obtain ⟨long, rfl⟩ := jumpForm_some hform
    unfold Emit.overwrite
    split
    · rename_i hsize
      refine ⟨fun a s' hrun => ?_, fun _ _ => trivial⟩
      obtain ⟨-, rfl⟩ := Prod.mk.inj (Except.ok.inj hrun)
      refine ⟨h.1, fun t ht => ?_⟩
      have hle := (codeSize_set hsize).ge
      rcases directTargets_set s.code slot cond long target t ht with ht | rfl
      · exact (h.2 t ht).mono rfl hle
      · exact htarget.mono rfl hle
    · refine ⟨fun a s' hrun => ?_, fun _ _ => trivial⟩
      obtain ⟨-, rfl⟩ := Prod.mk.inj (Except.ok.inj hrun)
      exact ⟨h.1, fun t ht => (h.2 t ht).mono rfl (Nat.le_refl _)⟩
  · exact leads_fail start s h

/-- A dummy may be sent to every address but the mark. -/
theorem leads_replaceJump (slot : Nat) (cond : Option Cond) (jmpl : Bool) {target : BitVec 64}
    (htarget : target ≠ translationStarted) :
    Leads env (Emit.replaceJump env slot cond jmpl target) :=
  fun start => (replaceJump_spec start slot cond jmpl target).conseq
    (fun _ h => ⟨h, .inl htarget⟩) fun _ _ h => h

/-- A dummy may be sent to the code that follows. -/
theorem leads_replaceJumpHere (slot : Nat) (cond : Option Cond) (jmpl : Bool) :
    Leads env (Emit.replaceJumpHere env slot cond jmpl) := fun start s h =>
  replaceJump_spec start slot cond jmpl (Emit.current env s) s ⟨h, targetOk_current s⟩

/-- The lookup itself emits nothing. -/
theorem leads_lookupCacheEntry (a : RiscAddr) : Leads env (Emit.lookupCacheEntry a) := by
  intro start s h
  unfold Emit.lookupCacheEntry
  cases s.cache.lookupCacheEntry a with
  | none => exact ⟨fun b s' h => (nomatch h), fun _ _ => trivial⟩
  | some r =>
      refine ⟨fun b s' hrun => ?_, fun _ _ => trivial⟩
      obtain ⟨-, rfl⟩ := Prod.mk.inj (Except.ok.inj hrun)
      exact h

/-- What a direct jump may lead to. -/
theorem lookupFinished_spec (start : BitVec 64) (target : RiscAddr) :
    Spec (Direct env start) (lookupFinished env target)
      (fun r s => Direct env start s ∧ ∀ loc, r = some loc → loc ≠ translationStarted)
      fun _ => True := by
  refine Spec.ite (fun _ => ?_) fun _ => Spec.ret fun s h => ⟨h, nofun⟩
  refine Spec.bind (leads_lookupCacheEntry target start) fun cacheLoc => Spec.ret fun s h => ⟨h, ?_⟩
  intro loc hloc
  split at hloc
  · exact absurd hloc nofun
  · rename_i hne
    obtain rfl := Option.some.inj hloc
    exact fun h => hne (.inr h)

/-! ### Jumps to `CX` -/

theorem endsPlain_append {is js : List FeInstr} (hjs : js ≠ []) (h : EndsPlain js) :
    EndsPlain (is ++ js) := by
  intro target heq
  rw [List.getLast?_append_of_ne_nil _ hjs] at heq
  exact h target heq

/-- A generator whose last instruction loads no constant into `CX`. -/
theorem lift_endsPlain {g : Gen α} (P : EmitState → Prop)
    (hg : ∀ s, (g s).2.1 ≠ [] ∧ EndsPlain (g s).2.1) :
    Spec P (Emit.lift g) (fun _ s => EndsPlain s.code) fun _ => True := by
  intro s _
  refine ⟨fun a s' hrun => ?_, fun _ _ => trivial⟩
  obtain ⟨-, rfl⟩ := Prod.mk.inj (Except.ok.inj hrun)
  exact endsPlain_append (hg s.gen).1 (hg s.gen).2

/-- Behind a dummy the code does not end in a constant. -/
theorem encDummy_endsPlain (cond : Option Cond) (jmpl : Bool) :
    Spec (fun s => EndsPlain s.code) (Emit.encDummy env cond jmpl)
      (fun _ s => EndsPlain s.code) fun _ => True := by
  intro s h
  refine ⟨fun a s' hrun => ?_, fun _ _ => trivial⟩
  unfold Emit.encDummy Emit.encJump at hrun
  split at hrun
  · rename_i i hform
    obtain ⟨long, rfl⟩ := jumpForm_some hform
    obtain ⟨-, rfl⟩ := Prod.mk.inj (Except.ok.inj hrun)
    refine endsPlain_append (List.cons_ne_nil _ _) fun target heq => ?_
    cases cond with
    | none => exact absurd heq nofun
    | some cond => exact absurd heq nofun
  · obtain ⟨-, rfl⟩ := Prod.mk.inj (Except.ok.inj hrun)
    show EndsPlain (s.code ++ [])
    rwa [List.append_nil]

/-- A jump through `rcx` adds no direct jump, if no constant was just moved there. -/
theorem lift_jmpr (start : BitVec 64) :
    Spec (fun s => Direct env start s ∧ EndsPlain s.code) (Emit.lift (feEnc64 (.jmpr .cx)))
      (fun _ => Direct env start) fun _ => True := by
  rintro s ⟨h, hplain⟩
  refine ⟨fun a s' hrun => ?_, fun _ _ => trivial⟩
  obtain ⟨-, rfl⟩ := Prod.mk.inj (Except.ok.inj hrun)
  exact h.append (.inr hplain) fun _ ht => absurd ht List.not_mem_nil

end Steps

/-! ## Generators without jumps -/

section Straight

variable {α β : Type}

theorem Straight.bind {g : Gen α} {k : α → Gen β} (hg : Straight g) (hk : ∀ a, Straight (k a)) :
    Straight (g >>= k) := by
  intro s i hi
  rcases List.mem_append.1 hi with hi | hi
  · exact hg s i hi
  · exact hk _ _ i hi

/-- Emitted code without a jump is straight. -/
theorem Straight.of_emits {g : Gen α} {Q : α → GenState → Prop}
    (h : Emits (ContentOk fun _ => True) (fun i => isJump i = false) g Q) : Straight g :=
  fun s => (h s fun _ => .inl trivial).1

theorem straight_feEnc64 {i : FeInstr} (hi : isJump i = false) : Straight (feEnc64 i) :=
  .of_emits (emits_feEnc64 ContentOk.ignoresErr hi)

theorem Straight.ite {c : Prop} [Decidable c] {g g' : Gen α} (hg : Straight g)
    (hg' : Straight g') : Straight (if c then g else g') := by
  split
  · exact hg
  · exact hg'

/-- A step that is left out is straight. -/
theorem straight_onlyIf {c : Prop} [Decidable c] {g : Gen Unit} (hg : Straight g) :
    Straight (onlyIf c g) :=
  .ite hg fun _ _ h => absurd h List.not_mem_nil

theorem Straight.ret (a : α) : Straight (pure a : Gen α) := fun _ _ h => absurd h List.not_mem_nil

/-- The allocator only moves and exchanges values. -/
theorem allocatorCode_straight : AllocatorCode (fun _ => True) fun i => isJump i = false where
  store := fun _ _ _ => rfl
  load := fun _ _ _ => rfl
  usage := fun _ _ => rfl
  move := fun _ _ _ => rfl
  exchange := fun _ _ => rfl
  zero := fun _ => rfl

theorem straight_invalidateAllReplacements : Straight invalidateAllReplacements :=
  .of_emits (emits_invalidateAllReplacements allocatorCode_straight)

theorem straight_recordGpProfiler (flags : Flags) (reg : Nat) :
    Straight (recordGpProfiler flags reg) :=
  .of_emits (emits_recordGpProfiler allocatorCode_straight flags trivial)

theorem straight_getSrc (flags : Flags) (reg : Nat) : Straight (getSrc flags reg) :=
  .of_emits (emits_getSrc allocatorCode_straight flags trivial)

/-- `AUIPC` writes a constant to its destination. -/
theorem straight_translateAUIPC (flags : Flags) (instr : RiscInstr) :
    Straight (translateAUIPC flags instr) :=
  straight_onlyIf (.bind (.of_emits (emits_getRd allocatorCode_straight flags trivial))
    fun _ => straight_feEnc64 rfl)

theorem straight_setPc (target : RiscAddr) : Straight (setPc target) := straight_feEnc64 rfl

variable (env : Env)

/-- What is noted for the chain is written to the translator's variables. -/
theorem straight_noteChain (cond : Option Cond) : Straight (noteChain env cond) :=
  .bind (straight_feEnc64 rfl) fun _ => straight_feEnc64 rfl

/-- The end of the chain is noted with the address behind the block's code. -/
theorem straight_chainHere : Straight (chainHere env) :=
  .bind (straight_feEnc64 rfl) fun _ => straight_noteChain env none

/-- An exit without a jump: the chain's end, if there is to be one, and the `pc`. -/
theorem straight_exit (target : RiscAddr) :
    Straight (do onlyIf env.flags.translateOptChain (chainHere env); setPc target) :=
  .bind (straight_onlyIf (straight_chainHere env)) fun _ => straight_setPc target

theorem straight_chainAt (jump : BitVec 64) (cond : Cond) : Straight (chainAt env jump cond) :=
  .bind (straight_feEnc64 rfl) fun _ => straight_noteChain env (some cond)

/-- A return address goes to the return stack by moves alone. -/
theorem straight_pushEntry (instr : RiscInstr) (cacheLoc : CacheLoc) (saveRax : Bool) :
    Straight (pushEntry instr cacheLoc saveRax) :=
  .bind (straight_onlyIf (straight_feEnc64 rfl)) fun _ =>
  .bind (straight_feEnc64 rfl) fun _ => .bind (straight_feEnc64 rfl) fun _ =>
  .bind (straight_feEnc64 rfl) fun _ => .bind (straight_feEnc64 rfl) fun _ =>
  .bind (straight_feEnc64 rfl) fun _ => .bind (straight_feEnc64 rfl) fun _ =>
  .bind (straight_feEnc64 rfl) fun _ => .bind (straight_feEnc64 rfl) fun _ =>
  .bind (straight_feEnc64 rfl) fun _ => .bind (straight_feEnc64 rfl) fun _ =>
  straight_onlyIf (straight_feEnc64 rfl)

theorem straight_compareFront : Straight compareFront :=
  .bind (straight_feEnc64 rfl) fun _ => .bind (straight_feEnc64 rfl) fun _ =>
  .bind (straight_feEnc64 rfl) fun _ => .bind (straight_feEnc64 rfl) fun _ =>
  straight_feEnc64 rfl

theorem straight_popFront : Straight popFront :=
  .bind (straight_feEnc64 rfl) fun _ => .bind (straight_feEnc64 rfl) fun _ =>
  .bind (straight_feEnc64 rfl) fun _ => .bind (straight_feEnc64 rfl) fun _ =>
  straight_feEnc64 rfl

/-- The address that a `JALR` jumps to is computed without a jump. -/
theorem straight_jalrTarget (instr : RiscInstr) : Straight (jalrTarget instr) := by
  refine .bind straight_invalidateAllReplacements fun _ => .bind ?_ fun _ =>
    .bind (straight_feEnc64 rfl) fun _ => straight_feEnc64 rfl
  unfold moveRs1ToAx
  cases gpMap instr.regSrc1 with
  | some mapped => exact straight_feEnc64 rfl
  | none => exact straight_feEnc64 rfl

theorem straight_jalrLink (instr : RiscInstr) : Straight (jalrLink instr) := by
  refine straight_onlyIf ?_
  cases gpMap instr.regDest with
  | some mapped => exact straight_feEnc64 rfl
  | none => exact straight_feEnc64 rfl

/-- A comparison of two registers is straight, wherever they lie. -/
theorem straight_cmpRs1Rs2 (instr : RiscInstr) : Straight (cmpRs1Rs2 env instr) := by
  refine .bind (straight_recordGpProfiler _ _) fun _ => .bind (straight_recordGpProfiler _ _)
    fun _ => .bind (straight_getSrc _ _) fun _ => .bind (.ite (straight_feEnc64 rfl) ?_)
    fun _ => straight_invalidateAllReplacements
  exact .bind (straight_getSrc _ _) fun _ => straight_feEnc64 rfl

end Straight

/-! ## Emitters of control flow -/

section Emitters

variable (env : Env) (instr : RiscInstr)

/-- A push is straight, whatever the lookup finds. -/
theorem leads_rsEmitPush (saveRax : Bool) : Leads env (rsEmitPush instr saveRax) :=
  .bind (leads_lift straight_invalidateAllReplacements) fun _ =>
    .bind (leads_lookupCacheEntry _) fun _ =>
      leads_onlyIf (leads_lift (straight_pushEntry instr _ saveRax))

/-- The two jumps that save a target lead into the code. -/
theorem leads_popSave (nullJmpMiss : Nat) : Leads env (popSave env nullJmpMiss) :=
  .bind (leads_lift (straight_feEnc64 rfl)) fun _ => .bind (leads_encDummy _ _) fun _ =>
    .bind (leads_replaceJumpHere _ _ _) fun _ => .bind (leads_lift (straight_feEnc64 rfl)) fun _ =>
      .bind (leads_lift (straight_feEnc64 rfl)) fun _ => leads_replaceJumpHere _ _ _

/-- The jump over a miss leads into the code, whether a hit jumps or is saved. -/
theorem leads_rsEmitPopRAX (jumpOrPush : Bool) : Leads env (rsEmitPopRAX env jumpOrPush) := by
  refine .bind (leads_lift straight_invalidateAllReplacements) fun _ =>
    .bind (leads_lift straight_compareFront) fun _ => .bind (leads_encDummy _ _) fun slot => ?_
  cases jumpOrPush with
  | false => exact .bind (leads_lift straight_popFront) fun _ => leads_popSave env slot
  | true =>
      intro start
      have hplain := @lift_endsPlain _ popFront (fun _ => True) fun s =>
        ⟨List.cons_ne_nil _ _, fun target h => absurd h nofun⟩
      have hpop := ((leads_lift straight_popFront : Leads env _) start).and hplain
      refine Spec.bind (hpop.conseq (fun _ h => ⟨h, trivial⟩) fun _ _ h => h) fun _ => ?_
      exact Spec.bind (lift_jmpr start) fun _ => leads_replaceJumpHere slot _ _ start

/-- The jump past a target that is null leads into the code. -/
theorem leads_rsJumpStack : Leads env (rsJumpStack env) := by
  refine .bind (leads_lift straight_invalidateAllReplacements) fun _ =>
    .bind (leads_lift (straight_feEnc64 rfl)) fun _ => ?_
  intro start
  have hplain := @lift_endsPlain _ (feEnc64 (.cmp64ri .cx 0#64)) (fun _ => True) fun s =>
    ⟨List.cons_ne_nil _ _, fun target h => absurd h nofun⟩
  have hcmp := ((leads_lift (straight_feEnc64 rfl) : Leads env _) start).and hplain
  refine Spec.bind (hcmp.conseq (fun _ h => ⟨h, trivial⟩) fun _ _ h => h) fun _ => ?_
  have hdirect : Leads env (Emit.encDummy env (some .z) false) := leads_encDummy _ _
  have hdummy := (hdirect start).and (encDummy_endsPlain (some .z) false)
  refine Spec.bind hdummy fun slot => ?_
  exact Spec.bind (lift_jmpr start) fun _ => leads_replaceJumpHere slot _ _ start

/-- An exit whose jump leads to what `lookupFinished` has found. -/
theorem leads_lookupFinished (target : RiscAddr) {exit : Option CacheLoc → Emit Unit}
    (hnone : Leads env (exit none))
    (hsome : ∀ loc, loc ≠ translationStarted → Leads env (exit (some loc))) :
    Leads env (lookupFinished env target >>= exit) := by
  intro start
  refine Spec.bind (lookupFinished_spec start target) fun r s h => ?_
  cases r with
  | none => exact hnone start s h.1
  | some loc => exact hsome loc (h.2 loc rfl) start s h.1

/-- A `JAL` jumps to a finished block, or emits no jump. -/
theorem leads_translateJAL : Leads env (translateJAL env instr) := by
  refine .bind (leads_lift (straight_recordGpProfiler _ _)) fun _ =>
    .bind (leads_onlyIf (leads_rsEmitPush env instr _)) fun _ =>
    .bind (leads_lift (straight_translateAUIPC _ _)) fun _ =>
    .bind (leads_lift straight_invalidateAllReplacements) fun _ =>
    leads_lookupFinished env _ ?_ fun loc hloc => ?_
  · exact leads_lift (straight_exit env _)
  · exact leads_encJump _ _ hloc

/-- The jumps of the return stack lead into the code, whichever link registers there are. -/
theorem leads_jalrReturnStack : Leads env (jalrReturnStack env instr) := by
  refine .ite (.ite (.ite (leads_rsEmitPush env instr _) ?_) (leads_rsEmitPush env instr _))
    (.ite (leads_rsEmitPopRAX env _) (.ret ()))
  exact .bind (leads_rsEmitPopRAX env _) fun _ => .bind (leads_rsEmitPush env instr _) fun _ =>
    leads_rsJumpStack env

/-- Computing the static target emits nothing. -/
theorem leads_jalrStaticTarget : Leads env (jalrStaticTarget env instr) := by
  intro start s h
  refine ⟨fun a s' hrun => ?_, fun _ _ => trivial⟩
  unfold jalrStaticTarget at hrun
  split at hrun
  · exact absurd hrun nofun
  · obtain ⟨-, rfl⟩ := Prod.mk.inj (Except.ok.inj hrun)
    exact h

/-- The jump that `translate_JALR` emits for a target with finished code. -/
theorem leads_jalrDirect {loc : CacheLoc} (hloc : loc ≠ translationStarted) :
    Leads env (jalrDirect env (some loc)) := by
  intro start s h
  refine ⟨fun a s' hrun => ?_, fun _ _ => trivial⟩
  obtain ⟨-, rfl⟩ := Prod.mk.inj (Except.ok.inj hrun)
  refine h.append (.inl nofun) fun t ht => ?_
  obtain rfl : t = loc := List.mem_singleton.1 ht
  exact .inl hloc

/-- The direct jump of a `JALR` leads to a finished block. -/
theorem leads_jalrStep4 : Leads env (jalrStep4 env instr) := by
  refine .ite (.bind (leads_jalrStaticTarget env instr) fun target =>
    leads_lookupFinished env target ?_ fun loc hloc => leads_jalrDirect env hloc) ?_
  · exact leads_lift (straight_chainHere env)
  · exact leads_lift (straight_onlyIf (straight_feEnc64 rfl))

/-- All direct jumps of a `JALR` lead into the code or to a finished block. -/
theorem leads_translateJALR : Leads env (translateJALR env instr) :=
  .bind (leads_lift (straight_recordGpProfiler _ _)) fun _ =>
    .bind (leads_lift (straight_recordGpProfiler _ _)) fun _ =>
    .bind (leads_lift (straight_jalrTarget instr)) fun _ =>
    .bind (leads_lift (straight_jalrLink instr)) fun _ =>
    .bind (leads_onlyIf (leads_jalrReturnStack env instr)) fun _ =>
    .bind (leads_jalrStep4 env instr) fun _ => leads_lift (straight_feEnc64 rfl)

/-- So do those of a branch, whichever of its two exits are known. -/
theorem leads_translateBranch (jmpMnem : Cond) : Leads env (translateBranch env instr jmpMnem) := by
  refine .bind (leads_lift (straight_cmpRs1Rs2 env instr)) fun _ =>
    .bind (leads_encDummy _ _) fun slot => ?_
  have hrest : Leads env (do
      let endJmpLoc ← Emit.encDummy env none false
      let notTaken ← lookupFinished env (instr.addr + 4#64)
      notTakenExit env (instr.addr + 4#64) slot jmpMnem notTaken
      Emit.replaceJumpHere env endJmpLoc none false) := by
    refine .bind (leads_encDummy _ _) fun endSlot => ?_
    refine leads_lookupFinished env _ (.bind ?_ fun _ => leads_replaceJumpHere _ _ _)
      fun loc hloc => .bind ?_ fun _ => leads_replaceJumpHere _ _ _
    · exact .bind (leads_replaceJumpHere _ _ _) fun _ => .bind leads_get fun s =>
        .bind (leads_lift (straight_onlyIf (straight_chainAt env _ _))) fun _ =>
          leads_lift (straight_setPc _)
    · exact leads_replaceJump slot _ _ hloc
  refine leads_lookupFinished env _ (.bind ?_ fun _ => hrest)
    fun loc hloc => .bind ?_ fun _ => hrest
  · exact leads_lift (straight_exit env _)
  · exact leads_encJump _ _ hloc

/-- The instructions that `translate_JAL`, `translate_JALR` and the branches translate. -/
def isDirect (instr : RiscInstr) : Prop :=
  instr.mnem = .jal ∨ instr.mnem = .jalr ∨ instr.mnem = .beq ∨ instr.mnem = .bne ∨
    instr.mnem = .blt ∨ instr.mnem = .bge ∨ instr.mnem = .bltu ∨ instr.mnem = .bgeu

/-- So do those of every instruction that the model emits itself. -/
theorem leads_translateRiscInstr {instr : RiscInstr} (h : isDirect instr) :
    Leads env (translateRiscInstr env instr) := by
  have hboundary : Leads env (Emit.lift (onlyIf env.flags.verboseDisassembly boundary)) :=
    leads_lift (straight_onlyIf (.bind (straight_feEnc64 rfl) fun _ =>
      .bind (straight_feEnc64 rfl) fun _ => straight_feEnc64 rfl))
  refine .bind ?_ fun _ => hboundary
  unfold dispatchInstr
  rcases h with h | h | h | h | h | h | h | h
  · rw [h]
    exact leads_translateJAL env instr
  · rw [h]
    exact leads_translateJALR env instr
  all_goals
    rw [h]
    exact leads_translateBranch env instr _

end Emitters

end RiaJit.Translate
