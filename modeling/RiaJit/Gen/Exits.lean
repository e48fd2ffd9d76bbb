import RiaJit.Gen.InProgress
import RiaJit.Gen.LocalJumps
import RiaJit.Gen.Scratch
import RiaJit.Guest.ControlFlow
import RiaJit.Lib.Checkpoints
import RiaJit.X86.LinkedCode

/-!
# Exits of a block

A block is left for a guest address: by a jump to code that is finished already, or with
the address in the `pc` slot and a note for `chain`. What an exit leaves to the dispatcher
does not depend on whether a jump has been written over it since.
-/

set_option autoImplicit false

namespace RiaJit

open EmitLogic X86 StateExcept Checkpoints

namespace Translate

/-! ## Errors of the encoder are not forgotten -/

/-- An error stays. -/
def KeepsErr {α : Type} (g : Gen α) : Prop := ∀ s, s.err = true → (g s).2.2.err = true

section KeepsErr

variable {α β : Type}

theorem KeepsErr.ret (a : α) : KeepsErr (pure a) := fun _ h => h

/-- Two steps that raise no error raise none together. -/
theorem KeepsErr.bind {g : Gen α} {k : α → Gen β} (hg : KeepsErr g) (hk : ∀ a, KeepsErr (k a)) :
    KeepsErr (g >>= k) :=
  fun s h => hk _ _ (hg s h)

theorem KeepsErr.ite {c : Prop} [Decidable c] {g g' : Gen α} (hg : KeepsErr g)
    (hg' : KeepsErr g') : KeepsErr (if c then g else g') := by
  split
  · exact hg
  · exact hg'

/-- Where there is no error in the end, there was none before. -/
theorem KeepsErr.before {g : Gen α} (hg : KeepsErr g) {s : GenState}
    (h : (g s).2.2.err = false) : s.err = false := by
  cases hs : s.err with
  | false => rfl
  | true => exact absurd h (by simp [hg s hs])

/-- An instruction that is rejected raises the error, and none clears it. -/
theorem keepsErr_feEnc64 (i : FeInstr) : KeepsErr (feEnc64 i) := .ite (fun _ h => h) fun _ _ => rfl

theorem keepsErr_onlyIf {c : Prop} [Decidable c] {g : Gen Unit} (hg : KeepsErr g) :
    KeepsErr (onlyIf c g) := .ite hg (.ret ())

theorem keepsErr_invalidateReplacement (i : Fin 3) : KeepsErr (invalidateReplacement i) :=
  .bind (fun _ h => h) fun _ => .bind (keepsErr_onlyIf (keepsErr_feEnc64 _)) fun _ => fun _ h => h

theorem keepsErr_invalidateAll : KeepsErr invalidateAllReplacements :=
  .bind (keepsErr_invalidateReplacement 0) fun _ =>
    .bind (keepsErr_invalidateReplacement 1) fun _ => keepsErr_invalidateReplacement 2

/-- The end of a basic block clears no error. -/
theorem keepsErr_boundary : KeepsErr boundary :=
  .bind (keepsErr_feEnc64 _) fun _ => .bind (keepsErr_feEnc64 _) fun _ => keepsErr_feEnc64 _

theorem keepsErr_noteChain (env : Env) (cond : Option Cond) : KeepsErr (noteChain env cond) :=
  .bind (keepsErr_feEnc64 _) fun _ => keepsErr_feEnc64 _

theorem keepsErr_chainAt (env : Env) (jump : BitVec 64) (cond : Cond) :
    KeepsErr (chainAt env jump cond) :=
  .bind (keepsErr_feEnc64 _) fun _ => keepsErr_noteChain env _

theorem keepsErr_setPc (target : RiscAddr) : KeepsErr (setPc target) := keepsErr_feEnc64 _

/-- Nor does the end of a block. -/
theorem keepsErr_blockEnd (env : Env) (linkNull : Bool) : KeepsErr (blockEnd env linkNull) :=
  .bind keepsErr_invalidateAll fun _ =>
    .bind (keepsErr_onlyIf (keepsErr_feEnc64 _)) fun _ => keepsErr_feEnc64 _

/-- What an instruction leaves that the encoder has accepted. -/
theorem feEnc64_of_err {i : FeInstr} {s : GenState} (h : (feEnc64 i s).2.2.err = false) :
    feEnc64 i s = ((), [i], s) ∧ i.encodable = true := by
  unfold feEnc64 at h ⊢
  by_cases henc : i.encodable = true
  · rw [if_pos henc]
    exact ⟨rfl, henc⟩
  · rw [if_neg henc] at h
    cases h

/-- An instruction that the assembler encodes is added and nothing else changes. -/
theorem feEnc64_accepted {i : FeInstr} (h : i.encodable = true) (s : GenState) :
    feEnc64 i s = ((), [i], s) := by
  unfold feEnc64
  rw [if_pos h]
  rfl

end KeepsErr

/-! ## Steps that append and look up -/

/-- The emission appends `is` to the code, leaves `gen`, and the cache maps what it did. -/
def Adds {α : Type} (x : Emit α) (s : EmitState) (a : α) (is : List FeInstr) (gen : GenState) :
    Prop :=
  ∃ cache, x s = .ok (a, { s with code := s.code ++ is, gen := gen, cache := cache }) ∧
    ∀ f, CodeCache.Inv s.cache f → CodeCache.Inv cache f

section Adds

variable {α β : Type} {s : EmitState}

theorem adds_pure (a : α) : Adds (pure a : Emit α) s a [] s.gen := by
  refine ⟨s.cache, ?_, fun _ hinv => hinv⟩
  show Except.ok (a, s) = _
  rw [List.append_nil]

/-- The code of two steps is added piece by piece. -/
theorem Adds.bind {x : Emit α} {k : α → Emit β} {a : α} {b : β} {is js : List FeInstr}
    {gen gen' : GenState} (hx : Adds x s a is gen)
    (hk : ∀ cache, Adds (k a) { s with code := s.code ++ is, gen := gen, cache := cache } b js
      gen') : Adds (x >>= k) s b (is ++ js) gen' := by
  obtain ⟨cache, hrun, hinv⟩ := hx
  obtain ⟨cache', hrun', hinv'⟩ := hk cache
  refine ⟨cache', (bind_of_ok hrun).trans (hrun'.trans ?_), fun f h => hinv' f (hinv f h)⟩
  dsimp only
  rw [List.append_assoc]

/-- What an emission appends is determined. -/
theorem Adds.result {x : Emit α} {a b : α} {is : List FeInstr} {gen : GenState} {s' : EmitState}
    (hx : Adds x s a is gen) (hrun : x s = .ok (b, s')) :
    b = a ∧ s'.start = s.start ∧ s'.code = s.code ++ is ∧ s'.gen = gen ∧
      s'.garbled = s.garbled ∧ ∀ f, CodeCache.Inv s.cache f → CodeCache.Inv s'.cache f := by
  obtain ⟨cache, hok, hinv⟩ := hx
  obtain ⟨rfl, rfl⟩ := Prod.mk.inj (Except.ok.inj (hrun.symm.trans hok))
  exact ⟨rfl, rfl, rfl, rfl, rfl, hinv⟩

end Adds

/-! ## Jumps to finished code -/

section Jumps

variable {env : Env} {s s' : EmitState} {cond : Option Cond} {target : BitVec 64}

/-- A jump has the form that is asked for. -/
theorem jumpForm_long {enc : Encoder} {current : BitVec 64} {jmpl : Bool} {i : FeInstr}
    (h : enc.jumpForm current cond jmpl target = some i) :
    ∃ long, i = .jump cond long target ∧ (jmpl = true → long = true) := by
  unfold Encoder.jumpForm at h
  dsimp only at h
  split at h
  · rename_i hshort
    exact ⟨false, (Option.some.inj h).symm, fun hl => absurd hl hshort.1⟩
  · split at h
    · exact ⟨true, (Option.some.inj h).symm, fun _ => rfl⟩
    · cases h

/-- If no error is found later, the jump was encoded. -/
theorem encJump_of_err {jmpl : Bool} (h : Emit.encJump env cond jmpl target s = .ok ((), s'))
    (herr : s'.gen.err = false) :
    ∃ long, (jmpl = true → long = true) ∧
      s' = { s with code := s.code ++ [.jump cond long target] } := by
  unfold Emit.encJump at h
  split at h
  · rename_i i hform
    obtain ⟨long, rfl, hlong⟩ := jumpForm_long hform
    obtain ⟨-, rfl⟩ := Prod.mk.inj (Except.ok.inj h)
    exact ⟨long, hlong, rfl⟩
  · obtain ⟨-, rfl⟩ := Prod.mk.inj (Except.ok.inj h)
    cases herr

/-- The lookup of an exit finds finished code of its target, or none. -/
theorem lookupFinished_adds (env : Env) {f : RiscAddr → Option CacheLoc}
    (hinv : CodeCache.Inv s.cache f) (a : RiscAddr) :
    ∃ o, Adds (lookupFinished env a) s o [] s.gen ∧
      ∀ loc, o = some loc → env.flags.translateOptChain = true ∧ f a = some loc ∧
        loc ≠ translationStarted := by
  unfold lookupFinished
  by_cases hchain : env.flags.translateOptChain = true
  · rw [if_pos hchain]
    obtain ⟨c', hlookup, hinv'⟩ := hinv.lookupCacheEntry a
    have hrun : Emit.lookupCacheEntry a s =
        .ok ((f a).getD unseenCode, { s with cache := c' }) := by
      unfold Emit.lookupCacheEntry
      rw [hlookup]
    have hkeeps := Emit.keeps_lookupCacheEntry a
    refine ⟨if (f a).getD unseenCode = unseenCode ∨ (f a).getD unseenCode = translationStarted
      then none else some ((f a).getD unseenCode),
      ⟨c', (bind_of_ok hrun).trans ?_, fun f' hf' => ?_⟩, fun loc hloc => ?_⟩
    · rw [List.append_nil]
      rfl
    · exact (hkeeps f' s hf').1 _ _ hrun
    · -- neither a miss nor the mark of a started translation is handed out
      split at hloc
      · cases hloc
      · rename_i hseen
        obtain rfl := Option.some.inj hloc
        obtain ⟨hne, hstarted⟩ := not_or.1 hseen
        refine ⟨hchain, ?_, hstarted⟩
        cases hfa : f a with
        | none =>
            rw [hfa] at hne
            exact absurd rfl hne
        | some loc => rfl
  · rw [if_neg hchain]
    refine ⟨none, adds_pure none, fun loc hloc => ?_⟩
    cases hloc

end Jumps

/-! ## The code of an exit -/

/-- The place where `chain` writes a jump, and the note for it. -/
def stubCode (env : Env) : List FeInstr :=
  if env.flags.translateOptChain then
    [.leaRip .ax, .mov64mrCell .chainEnd .ax, .mov32miCell .chainType (env.enc.jumpMnem none)]
  else []

/-- The code of an exit to a guest address that is not subject to a condition. -/
inductive ExitCode (env : Env) (fin : RiscAddr → CacheLoc → Prop) (target : RiscAddr) :
    List FeInstr → Prop
  | direct {long : Bool} {loc : CacheLoc} : fin target loc →
      ExitCode env fin target [.jmp long loc]
  | noted : ExitCode env fin target (stubCode env ++ [.mov64miCell (.gp pc) target])
  | pseudo : ExitCode env fin target
      (stubCode env ++ [.mov64ri .ax target, .mov64mrCell (.gp pc) .ax])

/-- What a block leaves alone besides the state of the guest: the stack, and the variables
of the translator other than those of its exits and the scratch slot. -/
structure Kept (h h' : HostState) : Prop where
  stack : h'.stack = h.stack
  sp : h'.reg .sp = h.reg .sp
  cell : ∀ c, ¬ isRegFile c → c ≠ swapScratch → c ≠ .gp pc → c ≠ .chainEnd → c ≠ .chainType →
    h'.cell c = h.cell c

/-- The host after an exit has stored the address of the guest, with the note that the stub
at `stub` is to be replaced. -/
structure Parked (env : Env) (stub : BitVec 64) (cond : Option Cond) (target : RiscAddr)
    (h h' : HostState) : Prop where
  reg : ∀ R, R ≠ .ax → h'.reg R = h.reg R
  mem : h'.mem = h.mem
  stack : h'.stack = h.stack
  cell : ∀ c, c ≠ .gp pc → c ≠ .chainEnd → c ≠ .chainType → h'.cell c = h.cell c
  addr : h'.cell (.gp pc) = target
  note : env.flags.translateOptChain = true → h'.cell .chainEnd = stub ∧
    (h'.cell .chainType).setWidth 32 = (env.enc.jumpMnem cond).setWidth 32

section Runs

variable {env : Env} {fin : RiscAddr → CacheLoc → Prop} {target : RiscAddr} {is : List FeInstr}
  {code : CodeAt} {exit : Option Cond → BitVec 64 → Prop} {a : BitVec 64} {g : GuestState}
  {h h' : HostState}

theorem Kept.refl (h : HostState) : Kept h h := ⟨rfl, rfl, fun _ _ _ _ _ _ => rfl⟩

/-- What two pieces of code keep, both together keep. -/
theorem Kept.trans {h'' : HostState} (h₁ : Kept h h') (h₂ : Kept h' h'') : Kept h h'' :=
  ⟨h₂.stack.trans h₁.stack, h₂.sp.trans h₁.sp, fun c hc hs h₃ h₄ h₅ =>
    (h₂.cell c hc hs h₃ h₄ h₅).trans (h₁.cell c hc hs h₃ h₄ h₅)⟩

/-- Code that works beside the guest keeps what must be kept. -/
theorem Beside.kept (hb : Beside h h') : Kept h h' :=
  ⟨hb.stack, hb.sp, fun c hc hs _ _ _ => hb.cell c hc hs⟩

/-- So does code that works on guest registers. -/
theorem Outside.kept (hout : Outside h h') : Kept h h' := hout.beside.kept

/-- So does the exit with the `pc` set. -/
theorem Parked.kept {stub : BitVec 64} {cond : Option Cond}
    (hp : Parked env stub cond target h h') : Kept h h' :=
  ⟨hp.stack, hp.reg .sp (by simp), fun c _ _ => hp.cell c⟩

/-- The state of the guest does not depend on scratch registers and other variables. -/
theorem AtBoundary.congr (hb : AtBoundary g h) (hmem : h'.mem = h.mem)
    (hreg : ∀ y mapped, gpMap y = some mapped → h'.reg mapped = h.reg mapped)
    (hcell : ∀ y, y < 32 → h'.cell (.gp y) = h.cell (.gp y)) : AtBoundary g h' := by
  refine ⟨fun y hy hlt => ?_, hmem.trans hb.mem⟩
  rw [← hb.regs y hy hlt]
  cases hmap : gpMap y with
  | some mapped => exact hreg y mapped hmap
  | none => exact hcell y hlt

/-- A write to a mapped register is one of the guest. -/
theorem AtBoundary.writeMapped {x : Nat} {mapped : FeReg} (hb : AtBoundary g h)
    (hmap : gpMap x = some mapped) (v : BitVec 64) :
    AtBoundary (g.write x v) (h.setReg mapped v) := by
  refine ⟨fun y hy hlt => ?_, hb.mem.trans (GuestState.write_mem ..).symm⟩
  by_cases hyx : y = x
  · subst hyx
    rw [hmap, GuestState.write_reg_self g hy]
    exact h.reg_setReg_self _ _
  · rw [GuestState.write_reg_of_ne g hyx, ← hb.regs y hy hlt]
    cases hy' : gpMap y with
    | some other =>
        refine h.reg_setReg_of_ne (fun heq => hyx ?_) _
        rw [heq] at hy'
        exact gpMap_injective hy' hmap
    | none => rfl

/-- A write to the slot of any other register is one of the guest. -/
theorem AtBoundary.writeSlot {x : Nat} (hb : AtBoundary g h) (hmap : gpMap x = none)
    (v : BitVec 64) : AtBoundary (g.write x v) (h.setCell (.gp x) v) := by
  refine ⟨fun y hy hlt => ?_, hb.mem.trans (GuestState.write_mem ..).symm⟩
  by_cases hyx : y = x
  · subst hyx
    rw [hmap, GuestState.write_reg_self g hy]
    exact h.cell_setCell_self _ _
  · rw [GuestState.write_reg_of_ne g hyx, ← hb.regs y hy hlt]
    cases gpMap y with
    | some other => rfl
    | none => exact h.cell_setCell_of_ne (fun heq => hyx (Cell.gp.inj heq)) _

/-- No register of the guest is mapped to `rax`. -/
theorem gpMap_ne_ax {y : Nat} {mapped : FeReg} (h : gpMap y = some mapped) : mapped ≠ .ax :=
  gpMap_ne_replacement h 0

/-- The exit is at the boundary of basic blocks, with nothing cached. -/
theorem Parked.boundary {stub : BitVec 64} {cond : Option Cond}
    (hp : Parked env stub cond target h h') (hb : AtBoundary g h) : AtBoundary g h' := by
  refine hb.congr hp.mem (fun y mapped hmap => hp.reg mapped (gpMap_ne_ax hmap)) fun y hy => ?_
  refine hp.cell _ (fun heq => ?_) (by simp) (by simp)
  obtain rfl : y = pc := Cell.gp.inj heq
  exact absurd hy (by decide)

/-- The low half of a cell that is written with 32 bits. -/
theorem setWidth_lowHalf (x : BitVec 64) (v : BitVec 32) :
    (x.extractLsb' 32 32 ++ v).setWidth 32 = v := by
  apply BitVec.eq_of_getLsbD_eq
  intro i hi
  rw [BitVec.getLsbD_setWidth, BitVec.getLsbD_append]
  simp [hi]

/-- The code that notes the stub in `AX`, and what it leaves. -/
def noteCode (env : Env) (cond : Option Cond) : List FeInstr :=
  [.mov64mrCell .chainEnd .ax, .mov32miCell .chainType (env.enc.jumpMnem cond)]

/-- The state after a note. -/
def notedState (env : Env) (cond : Option Cond) (h : HostState) : HostState :=
  (h.setCell .chainEnd (h.reg .ax)).setCell .chainType
    ((h.cell .chainType).extractLsb' 32 32 ++ (env.enc.jumpMnem cond).setWidth 32)

/-- The code that notes a jump for the chain stores its address and its kind. -/
theorem noteCode_runs (cond : Option Cond) (h : HostState) :
    runCode FeInstr.exec (noteCode env cond) h = some (notedState env cond h) := by
  have hother : (h.setCell .chainEnd (h.reg .ax)).cell .chainType = h.cell .chainType :=
    h.cell_setCell_of_ne (by simp) _
  show some (HostState.setCell _ _ (BitVec.extractLsb' 32 32 (HostState.cell _ _) ++ _)) = _
  rw [hother]
  rfl

/-- The address of the guest is stored after a note. -/
theorem parked_notedState (stub : BitVec 64) (cond : Option Cond) (target : RiscAddr)
    (h : HostState) :
    Parked env stub cond target h
      ((notedState env cond (h.setReg .ax stub)).setCell (.gp pc) target) := by
  unfold notedState
  refine ⟨fun R hR => h.reg_setReg_of_ne hR _, rfl, rfl, fun c h₁ h₂ h₃ => ?_,
    HostState.cell_setCell_self .., fun _ => ⟨?_, ?_⟩⟩
  · rw [HostState.cell_setCell_of_ne _ h₁, HostState.cell_setCell_of_ne _ h₃,
      HostState.cell_setCell_of_ne _ h₂]
    rfl
  · rw [HostState.cell_setCell_of_ne _ (by simp), HostState.cell_setCell_of_ne _ (by simp)]
    simp
  · rw [HostState.cell_setCell_of_ne _ (by simp), HostState.cell_setCell_self]
    exact setWidth_lowHalf _ _

/-- Without chaining only the address is stored. -/
theorem parked_unnoted (hchain : ¬ env.flags.translateOptChain = true) (stub : BitVec 64)
    (cond : Option Cond) (target : RiscAddr) (h : HostState) :
    Parked env stub cond target h (h.setCell (.gp pc) target) :=
  ⟨fun _ _ => rfl, rfl, rfl, fun _ hc _ _ => h.cell_setCell_of_ne hc _,
    h.cell_setCell_self _ _, fun h => absurd h hchain⟩

/-- The address may be stored by way of `AX`. -/
theorem Parked.byAx {stub : BitVec 64} {cond : Option Cond}
    (hp : Parked env stub cond target h (h'.setCell (.gp pc) target)) :
    Parked env stub cond target h ((h'.setReg .ax target).setCell (.gp pc) target) :=
  ⟨fun R hR => (h'.reg_setReg_of_ne hR _).trans (hp.reg R hR), hp.mem, hp.stack, hp.cell, hp.addr,
    hp.note⟩

/-! ## Runs of exits -/

/-- With chaining the stub notes its own address. -/
theorem stubCode_chain (hchain : env.flags.translateOptChain = true) :
    stubCode env = .leaRip .ax :: noteCode env none := if_pos hchain

/-- Without, there is no stub. -/
theorem stubCode_unchained (hchain : ¬ env.flags.translateOptChain = true) :
    stubCode env = [] := if_neg hchain

/-- A jump goes to its target, in either form. -/
theorem step_jmp {long : Bool} {loc : BitVec 64} (hcode : code a = some (.jmp long loc)) :
    env.enc.step code ⟨a, h⟩ = some ⟨loc, h⟩ := by
  unfold Encoder.step
  rw [hcode]
  rfl

theorem reaches_leaRip {dst : FeReg} (hcode : code a = some (.leaRip dst)) :
    env.enc.Reaches code ⟨a, h⟩
      ⟨a + BitVec.ofNat 64 (env.enc.size (.leaRip dst)), h.setReg dst a⟩ := by
  refine .single ?_
  unfold Encoder.step
  rw [hcode]
  rfl

/-- The next step jumps to finished code of the guest address. -/
def AtJump (env : Env) (fin : RiscAddr → CacheLoc → Prop) (code : CodeAt) (target : RiscAddr)
    (m : Cpu) : Prop :=
  ∃ loc, fin target loc ∧ env.enc.step code m = some ⟨loc, m.host⟩

/-- The store of an address after the stub: the state is parked, or it is at a jump that was
written over the stub. -/
theorem stub_arrives {post : List FeInstr} (store : HostState → HostState)
    (hstore : ∀ h, runCode FeInstr.exec post h = some (store h))
    (hparked : ∀ stub h h', Parked env stub none target h (h'.setCell (.gp pc) target) →
      Parked env stub none target h (store h'))
    (hlinked : HoldsLinked env.enc code exit a (stubCode env ++ post))
    (hexit : ∀ loc, exit none loc → fin target loc) (h : HostState) :
    Arrives (env.enc.step code) (fun m => (AtJump env fin code target m ∧ m.host = h) ∨
      (m.rip = env.enc.after a (stubCode env ++ post) ∧ Parked env a none target h m.host))
      ⟨a, h⟩ := by
  by_cases hchain : env.flags.translateOptChain = true
  · rw [stubCode_chain hchain] at hlinked ⊢
    obtain ⟨hstub, hrest⟩ := hlinked
    rcases hstub with hlea | ⟨cond, loc, hcond, hloc, hjump⟩
    · -- the stub is still there
      obtain ⟨hheld, hheld'⟩ := allAt_append.1
        (show AllAt _ _ _ (noteCode env none ++ post) from hrest)
      have hnote := HoldsLinked.reaches hheld (noteCode_runs none (h.setReg .ax a))
      have hpost := HoldsLinked.reaches hheld' (hstore (notedState env none (h.setReg .ax a)))
      refine ⟨_, (reaches_leaRip hlea).trans (hnote.trans hpost), .inr ⟨?_, ?_⟩⟩
      · rw [List.cons_append, Encoder.after_cons, Encoder.after_append]
      · exact hparked _ _ _ (parked_notedState a none target h)
    · -- a jump was written over it
      obtain rfl : none = cond := Option.some.inj hcond
      exact .here (.inl ⟨⟨loc, hexit loc hloc, step_jmp hjump⟩, rfl⟩)
  · rw [stubCode_unchained hchain] at hlinked ⊢
    refine ⟨_, hlinked.reaches (hstore h), .inr ⟨rfl, hparked _ _ _ ?_⟩⟩
    exact parked_unnoted hchain a none target h

/-- From an exit a jump to the next block is reached, or the end of the exit with the address
parked. -/
theorem ExitCode.arrives (hcode : ExitCode env fin target is)
    (hlinked : HoldsLinked env.enc code exit a is)
    (hexit : ∀ loc, exit none loc → fin target loc) (h : HostState) :
    Arrives (env.enc.step code) (fun m => (AtJump env fin code target m ∧ m.host = h) ∨
      (m.rip = env.enc.after a is ∧ Parked env a none target h m.host ∧
        (env.flags.translateOptChain = true → ∃ post, is = .leaRip .ax :: post))) ⟨a, h⟩ := by
  have hstub : ∀ store, env.flags.translateOptChain = true →
      ∃ post, stubCode env ++ store = .leaRip .ax :: post := fun store hchain =>
    ⟨_, by rw [stubCode_chain hchain, List.cons_append]⟩
  cases hcode with
  | @direct long loc hfin =>
      have hjump : code a = some (.jmp long loc) := by
        rcases hlinked.1 with hjump | ⟨cond, loc, hcond, -⟩
        · exact hjump
        · cases hcond
      exact .here (.inl ⟨⟨loc, hfin, step_jmp hjump⟩, rfl⟩)
  | noted =>
      exact (stub_arrives (fun h => h.setCell (.gp pc) target) (fun h => rfl) (fun _ _ _ hp => hp)
        hlinked hexit h).mono fun _ => Or.imp_right fun hp => ⟨hp.1, hp.2, hstub _⟩
  | pseudo =>
      refine (stub_arrives (fun h => (h.setReg .ax target).setCell (.gp pc) target)
        (fun h => ?_) (fun _ _ _ hp => hp.byAx) hlinked hexit h).mono fun _ =>
          Or.imp_right fun hp => ⟨hp.1, hp.2, hstub _⟩
      show some (HostState.setCell _ _ _) = _
      rw [HostState.reg_setReg_self]

end Runs

end Translate

end RiaJit
