import RiaJit.X86.Code

/-!
# Runs of code with local jumps

The run of a piece of code from its start to its end, which is unique and does not exist
where an instruction faults on the way, and the layout of a choice between two pieces of
straight code.
-/

set_option autoImplicit false

namespace RiaJit.X86

open EmitLogic

/-! ## Runs -/

/-- The code, placed at `start`, takes `h` at its start to `h'` at its end. -/
def RunsTo (enc : Encoder) (start : BitVec 64) (is : List FeInstr) (h h' : HostState) : Prop :=
  enc.Reaches (enc.fetch start is) ⟨start, h⟩ ⟨enc.after start is, h'⟩

section Runs

variable {enc : Encoder} {code : CodeAt} {m m₁ m₂ : Cpu}

/-- The machine is deterministic, so two states without a successor are one. -/
theorem reaches_unique (h₁ : enc.Reaches code m m₁) (hstop₁ : enc.step code m₁ = none)
    (h₂ : enc.Reaches code m m₂) (hstop₂ : enc.step code m₂ = none) : m₁ = m₂ := by
  induction h₁ using Relation.ReflTransGen.head_induction_on with
  | refl =>
      rcases h₂.cases_head with heq | ⟨m', hstep, -⟩
      · exact heq
      · rw [hstop₁] at hstep
        exact absurd hstep nofun
  | head hstep _ ih =>
      rcases h₂.cases_head with heq | ⟨m', hstep', hrest⟩
      · rw [heq, hstop₂] at hstep
        exact absurd hstep nofun
      · obtain rfl := Option.some.inj (hstep.symm.trans hstep')
        exact ih hrest

theorem step_none (h : code m.rip = none) : enc.step code m = none := by
  unfold Encoder.step
  rw [h]
  rfl

/-- There is no instruction at the end. -/
theorem fetch_end (start : BitVec 64) (is : List FeInstr) (hlt : enc.codeSize is < 2 ^ 64) :
    enc.fetch start is (enc.after start is) = none := by
  induction is generalizing start with
  | nil => rfl
  | cons i is ih =>
      have hsize := enc.size_pos i
      rw [Encoder.codeSize_cons] at hlt
      have hne : enc.after start (i :: is) ≠ start :=
        enc.after_ne (by rw [Encoder.codeSize_cons]; omega) (by rw [Encoder.codeSize_cons]; omega)
      show (if enc.after start (i :: is) = start then some i else _) = none
      rw [if_neg hne, Encoder.after_cons]
      exact ih _ (by omega)

variable {start : BitVec 64} {is : List FeInstr} {h h' h'' : HostState}

/-- Code has one result. -/
theorem RunsTo.unique (hlt : enc.codeSize is < 2 ^ 64) (h₁ : RunsTo enc start is h h')
    (h₂ : RunsTo enc start is h h'') : h' = h'' := by
  have hend : ∀ h, enc.step (enc.fetch start is) ⟨enc.after start is, h⟩ = none := fun h =>
    step_none (fetch_end start is hlt)
  exact (Cpu.mk.inj (reaches_unique h₁ (hend h') h₂ (hend h''))).2

/-- Code that stops at an instruction does not run to its end. -/
theorem not_runsTo (hlt : enc.codeSize is < 2 ^ 64)
    (hreach : enc.Reaches (enc.fetch start is) ⟨start, h⟩ m)
    (hstop : enc.step (enc.fetch start is) m = none) (hsome : enc.fetch start is m.rip ≠ none) :
    ¬ RunsTo enc start is h h' := by
  intro hrun
  have hend := fetch_end start is hlt
  have heq := reaches_unique hreach hstop hrun (step_none hend)
  rw [heq] at hsome
  exact hsome hend

end Runs

/-! ## Jumps -/

section Jumps

variable {enc : Encoder} {code : CodeAt} {a target : BitVec 64} {h h' : HostState} {cond : Cond}
  {flags : X86Flags}

theorem size_shortJmp (enc : Encoder) (target : BitVec 64) : enc.size (.jmp false target) = 2 :=
  enc.size_jmp ..

theorem size_shortJcc (enc : Encoder) (cond : Cond) (target : BitVec 64) :
    enc.size (.jcc false cond target) = 2 :=
  enc.size_jcc ..

/-- A jump reaches its target. -/
theorem reaches_jmp {long : Bool} (hcode : code a = some (.jmp long target)) :
    enc.Reaches code ⟨a, h⟩ ⟨target, h⟩ := by
  refine .single ?_
  unfold Encoder.step
  rw [hcode]
  rfl

/-- A conditional jump reaches its target or goes on, as the flags say. -/
theorem reaches_jcc {long : Bool} (hcode : code a = some (.jcc long cond target))
    (hflags : h.flags = some flags) :
    enc.Reaches code ⟨a, h⟩ ⟨if cond.holds flags then target
      else a + BitVec.ofNat 64 (enc.size (.jcc long cond target)), h⟩ := by
  refine .single ?_
  unfold Encoder.step
  rw [hcode]
  show h.flags.map _ = _
  rw [hflags]
  show some (if cond.holds flags then (⟨target, h⟩ : Cpu) else _) = _
  split
  · rfl
  · rfl

/-- A choice placed at `a`: the first piece, or the second where the condition holds. -/
def choice (enc : Encoder) (a : BitVec 64) (cond : Cond) (is js : List FeInstr) : List FeInstr :=
  let other := a + BitVec.ofNat 64 (2 + enc.codeSize is + 2)
  .jcc false cond other :: (is ++ .jmp false (enc.after other js) :: js)

variable {is js : List FeInstr}

theorem choice_length : (choice enc a cond is js).length = is.length + js.length + 2 := by
  unfold choice
  simp only [List.length_cons, List.length_append]
  omega

/-- The second piece lies behind the first and its jump. -/
theorem choice_other (is : List FeInstr) (target other : BitVec 64) :
    enc.after a (.jcc false cond target :: (is ++ [.jmp false other])) =
      a + BitVec.ofNat 64 (2 + enc.codeSize is + 2) := by
  unfold Encoder.after
  rw [Encoder.codeSize_cons, Encoder.codeSize_append, Encoder.codeSize_cons, Encoder.codeSize_nil,
    size_shortJcc, size_shortJmp]
  rfl

/-- The pieces of a choice, and where the second one ends. -/
theorem holds_choice (hholds : Holds enc code a (choice enc a cond is js)) :
    code a = some (.jcc false cond (a + BitVec.ofNat 64 (2 + enc.codeSize is + 2))) ∧
      Holds enc code (a + 2#64) is ∧
      code (enc.after (a + 2#64) is) = some (.jmp false (enc.after a (choice enc a cond is js))) ∧
      Holds enc code (a + BitVec.ofNat 64 (2 + enc.codeSize is + 2)) js ∧
      enc.after (a + BitVec.ofNat 64 (2 + enc.codeSize is + 2)) js =
        enc.after a (choice enc a cond is js) := by
  have hend : enc.after (a + BitVec.ofNat 64 (2 + enc.codeSize is + 2)) js =
      enc.after a (choice enc a cond is js) := by
    unfold choice
    dsimp only
    rw [show (FeInstr.jcc false cond (a + BitVec.ofNat 64 (2 + enc.codeSize is + 2)) ::
        (is ++ FeInstr.jmp false (enc.after (a + BitVec.ofNat 64 (2 + enc.codeSize is + 2)) js) ::
          js)) = (FeInstr.jcc false cond (a + BitVec.ofNat 64 (2 + enc.codeSize is + 2)) ::
        (is ++ [FeInstr.jmp false
          (enc.after (a + BitVec.ofNat 64 (2 + enc.codeSize is + 2)) js)])) ++ js by simp,
      Encoder.after_append, choice_other]
  obtain ⟨hjcc, hrest⟩ := hholds
  rw [size_shortJcc] at hrest
  obtain ⟨his, hjmp, hjs⟩ := holds_append.1 hrest
  refine ⟨hjcc, his, ?_, ?_, hend⟩
  · rw [hjmp, hend]
  · have hother : enc.after (a + BitVec.ofNat 64 2) is + BitVec.ofNat 64 2 =
        a + BitVec.ofNat 64 (2 + enc.codeSize is + 2) := by
      unfold Encoder.after
      rw [BitVec.ofNat_add, BitVec.ofNat_add, BitVec.add_assoc, BitVec.add_assoc, BitVec.add_assoc]
    rw [← hother]
    rw [size_shortJmp] at hjs
    exact hjs

/-- A choice runs one of its pieces. -/
theorem choice_runs (hholds : Holds enc code a (choice enc a cond is js))
    (hflags : h.flags = some flags)
    (hrun : runCode FeInstr.exec (if cond.holds flags then js else is) h = some h') :
    enc.Reaches code ⟨a, h⟩ ⟨enc.after a (choice enc a cond is js), h'⟩ := by
  obtain ⟨hjcc, his, hjmp, hjs, hend⟩ := holds_choice hholds
  refine (reaches_jcc hjcc hflags).trans ?_
  by_cases hc : cond.holds flags = true
  · rw [if_pos hc] at hrun ⊢
    rw [← hend]
    exact reaches_runCode hjs hrun
  · rw [if_neg hc] at hrun ⊢
    rw [size_shortJcc]
    exact (reaches_runCode his hrun).trans (reaches_jmp hjmp)

/-- A choice stops where its first piece does. -/
theorem choice_stops {pre post : List FeInstr} {i : FeInstr}
    (hholds : Holds enc code a (choice enc a cond (pre ++ i :: post) js))
    (hflags : h.flags = some flags) (hc : cond.holds flags = false)
    (hrun : runCode FeInstr.exec pre h = some h')
    (hstop : ∀ rip, code rip = some i → enc.step code ⟨rip, h'⟩ = none) :
    ∃ m, enc.Reaches code ⟨a, h⟩ m ∧ enc.step code m = none ∧ code m.rip ≠ none := by
  obtain ⟨hjcc, his, -⟩ := holds_choice hholds
  obtain ⟨hpre, hi, -⟩ := holds_append.1 his
  have hfirst : enc.Reaches code _ _ := reaches_jcc hjcc hflags
  rw [hc, if_neg Bool.false_ne_true, size_shortJcc] at hfirst
  refine ⟨_, hfirst.trans (reaches_runCode hpre hrun), hstop _ hi, ?_⟩
  rw [hi]
  exact Option.some_ne_none i

/-- A piece placed at `a` that is skipped where the condition holds. -/
def skip (enc : Encoder) (a : BitVec 64) (cond : Cond) (is : List FeInstr) : List FeInstr :=
  .jcc false cond (a + BitVec.ofNat 64 (2 + enc.codeSize is)) :: is

theorem skip_length : (skip enc a cond is).length = is.length + 1 := rfl

/-- A piece that is skipped runs only if the condition does not hold. -/
theorem skip_runs (hholds : Holds enc code a (skip enc a cond is)) (hflags : h.flags = some flags)
    (hrun : runCode FeInstr.exec (if cond.holds flags then [] else is) h = some h') :
    enc.Reaches code ⟨a, h⟩ ⟨enc.after a (skip enc a cond is), h'⟩ := by
  have hend : enc.after a (skip enc a cond is) = a + BitVec.ofNat 64 (2 + enc.codeSize is) := by
    unfold Encoder.after skip
    rw [Encoder.codeSize_cons, size_shortJcc]
  obtain ⟨hjcc, his⟩ := hholds
  rw [size_shortJcc] at his
  refine (reaches_jcc hjcc hflags).trans ?_
  by_cases hc : cond.holds flags = true
  · rw [if_pos hc] at hrun ⊢
    obtain rfl : h = h' := Option.some.inj hrun
    rw [hend]
  · rw [if_neg hc] at hrun ⊢
    rw [size_shortJcc]
    have hsame : enc.after (a + BitVec.ofNat 64 2) is = enc.after a (skip enc a cond is) := by
      rw [hend]
      unfold Encoder.after
      rw [BitVec.ofNat_add, BitVec.add_assoc]
    rw [← hsame]
    exact reaches_runCode his hrun

end Jumps

/-! ## Straight code around a piece with jumps -/

section Around

variable {enc : Encoder} {a : BitVec 64} {pre mid post : List FeInstr} {h h₁ h₂ h' : HostState}

/-- A piece in the middle of code is held at its place. -/
theorem holds_around (hlt : enc.codeSize (pre ++ (mid ++ post)) < 2 ^ 64) :
    Holds enc (enc.fetch a (pre ++ (mid ++ post))) a pre ∧
      Holds enc (enc.fetch a (pre ++ (mid ++ post))) (enc.after a pre) mid ∧
      Holds enc (enc.fetch a (pre ++ (mid ++ post))) (enc.after (enc.after a pre) mid) post := by
  have hall := holds_fetch enc a [] (pre ++ (mid ++ post)) [] hlt
  rw [List.nil_append, List.append_nil, Encoder.after_nil] at hall
  obtain ⟨hpre, hrest⟩ := holds_append.1 hall
  exact ⟨hpre, holds_append.1 hrest⟩

/-- Straight code runs from its start to its end. -/
theorem runsTo_straight {is : List FeInstr} (hlt : enc.codeSize is < 2 ^ 64)
    (hrun : runCode FeInstr.exec is h = some h') : RunsTo enc a is h h' := by
  have hholds := holds_fetch enc a [] is [] hlt
  rw [List.nil_append, List.append_nil, Encoder.after_nil] at hholds
  exact reaches_runCode hholds hrun

/-- Code with a jump inside runs, if the piece with the jump does. -/
theorem runsTo_around (hlt : enc.codeSize (pre ++ (mid ++ post)) < 2 ^ 64)
    (hpre : runCode FeInstr.exec pre h = some h₁)
    (hmid : ∀ code, Holds enc code (enc.after a pre) mid →
      enc.Reaches code ⟨enc.after a pre, h₁⟩ ⟨enc.after (enc.after a pre) mid, h₂⟩)
    (hpost : runCode FeInstr.exec post h₂ = some h') :
    RunsTo enc a (pre ++ (mid ++ post)) h h' := by
  obtain ⟨hholds, hholds', hholds''⟩ := holds_around (a := a) hlt
  unfold RunsTo
  rw [Encoder.after_append, Encoder.after_append]
  exact (reaches_runCode hholds hpre).trans
    ((hmid _ hholds').trans (reaches_runCode hholds'' hpost))

/-- Code does not run to its end, if the piece in its middle gets stuck. -/
theorem not_runsTo_around (hlt : enc.codeSize (pre ++ (mid ++ post)) < 2 ^ 64)
    (hpre : runCode FeInstr.exec pre h = some h₁)
    (hmid : ∀ code, Holds enc code (enc.after a pre) mid →
      ∃ m, enc.Reaches code ⟨enc.after a pre, h₁⟩ m ∧ enc.step code m = none ∧
        code m.rip ≠ none) :
    ¬ RunsTo enc a (pre ++ (mid ++ post)) h h' := by
  obtain ⟨hholds, hholds', -⟩ := holds_around (a := a) hlt
  obtain ⟨m, hreach, hstop, hsome⟩ := hmid _ hholds'
  exact not_runsTo hlt ((reaches_runCode hholds hpre).trans hreach) hstop hsome

end Around

end RiaJit.X86
