import RiaJit.Cache.Refinement
import RiaJit.Gen.EmitRules
import RiaJit.Gen.JumpTargets
import RiaJit.Gen.ParseBlock

/-!
# Marks of translations in progress

An address is marked with `TRANSLATION_STARTED` while the translation of its code is
under way further up the recursion. `TransInv` says which addresses may be marked;
all others that the cache knows are starts of finished blocks. A translation returns
with the marks it was called with, so no mark is left when the outermost one has been
entered.
-/

set_option autoImplicit false

namespace RiaJit.Translate

open StateExcept CodeCache

/-! ## Emission leaves the cache as it is -/

namespace Emit

variable {α β : Type}

/-- The step returns or aborts and does not change what the cache maps. -/
def Keeps (x : Emit α) : Prop :=
  ∀ f, Spec (fun s => Inv s.cache f) x (fun _ s => Inv s.cache f) (· ≠ .outOfFuel)

/-- What two steps keep, both together keep. -/
theorem Keeps.bind {x : Emit α} {k : α → Emit β} (hx : Keeps x) (hk : ∀ a, Keeps (k a)) :
    Keeps (x >>= k) :=
  fun f => (hx f).bind fun a => hk a f

theorem Keeps.ret (a : α) : Keeps (pure a) := fun _ => Spec.ret fun _ h => h

/-- A step that always returns and leaves the cache alone. -/
theorem Keeps.of_ok {x : Emit α} {g : EmitState → α × EmitState} (hx : ∀ s, x s = .ok (g s))
    (hcache : ∀ s, (g s).2.cache = s.cache) : Keeps x := by
  intro f s hinv
  refine ⟨fun a s' h => ?_, fun e h => ?_⟩
  · rw [hx] at h
    obtain rfl : s' = (g s).2 := congrArg Prod.snd (Except.ok.inj h).symm
    show Inv (g s).2.cache f
    rwa [hcache]
  · rw [hx] at h
    exact absurd h nofun

/-- The register cache has no part in the code cache. -/
theorem keeps_lift (g : Gen α) : Keeps (lift g) := .of_ok (fun _ => rfl) fun _ => rfl

theorem keeps_get : Keeps (get : Emit EmitState) := .of_ok (fun _ => rfl) fun _ => rfl

/-- A lookup may fill the TLB, and no more. -/
theorem keeps_lookupCacheEntry (a : RiscAddr) : Keeps (lookupCacheEntry a) := by
  intro f s hinv
  obtain ⟨c', hlookup, hinv'⟩ := hinv.lookupCacheEntry a
  have hrun : lookupCacheEntry a s = .ok ((f a).getD unseenCode, { s with cache := c' }) := by
    unfold lookupCacheEntry
    rw [hlookup]
  rw [hrun]
  refine ⟨fun b s' h => ?_, fun e h => absurd h nofun⟩
  obtain ⟨-, rfl⟩ := Prod.mk.inj (Except.ok.inj h)
  exact hinv'

variable (env : Env)

theorem keeps_critical : Keeps (critical env) := by
  intro f s hinv
  unfold critical criticalNotYetImplemented
  cases env.flags.failSilently with
  | true =>
      refine ⟨fun a s' h => ?_, fun e h => absurd h nofun⟩
      obtain ⟨-, rfl⟩ := Prod.mk.inj (Except.ok.inj h)
      exact hinv
  | false =>
      refine ⟨fun a s' h => absurd h nofun, fun e h => ?_⟩
      obtain rfl := Except.error.inj h
      exact nofun

/-- Emitting a jump keeps the code cache. -/
theorem keeps_encJump (cond : Option X86.Cond) (jmpl : Bool) (target : BitVec 64) :
    Keeps (encJump env cond jmpl target) := by
  intro f s hinv
  unfold encJump
  split
  · refine ⟨fun a s' h => ?_, fun e h => absurd h nofun⟩
    obtain ⟨-, rfl⟩ := Prod.mk.inj (Except.ok.inj h)
    exact hinv
  · exact keeps_lift _ f s hinv

/-- Writing over a jump keeps the code cache. -/
theorem keeps_overwrite (slot : Nat) (i : X86.FeInstr) : Keeps (overwrite env slot i) := by
  intro f s hinv
  unfold overwrite
  split
  · refine ⟨fun a s' h => ?_, fun e h => absurd h nofun⟩
    obtain ⟨-, rfl⟩ := Prod.mk.inj (Except.ok.inj h)
    exact hinv
  · refine ⟨fun a s' h => ?_, fun e h => absurd h nofun⟩
    obtain ⟨-, rfl⟩ := Prod.mk.inj (Except.ok.inj h)
    exact hinv

theorem keeps_replaceJump (slot : Nat) (cond : Option X86.Cond) (jmpl : Bool)
    (target : BitVec 64) : Keeps (replaceJump env slot cond jmpl target) := by
  intro f s hinv
  unfold replaceJump
  split
  · exact keeps_overwrite env slot _ f s hinv
  · exact keeps_lift _ f s hinv

theorem keeps_replaceJumpHere (slot : Nat) (cond : Option X86.Cond) (jmpl : Bool) :
    Keeps (replaceJumpHere env slot cond jmpl) :=
  fun f s hinv => keeps_replaceJump env slot cond jmpl (current env s) f s hinv

theorem keeps_encDummy (cond : Option X86.Cond) (jmpl : Bool) :
    Keeps (encDummy env cond jmpl) := by
  intro f s hinv
  obtain ⟨hok, herr⟩ := keeps_encJump env cond jmpl (current env s) f s hinv
  unfold encDummy
  cases hrun : encJump env cond jmpl (current env s) s with
  | error e =>
      refine ⟨fun a s' h => (nomatch h), fun e' h => ?_⟩
      obtain rfl : e = e' := Except.error.inj h
      exact herr e hrun
  | ok p =>
      refine ⟨fun a s' h => ?_, fun e' h => (nomatch h)⟩
      obtain ⟨-, rfl⟩ := Prod.mk.inj (Except.ok.inj h)
      exact hok p.1 p.2 hrun

end Emit

/-- The step that parses again what stands before a `JALR` keeps the code cache. -/
theorem keeps_jalrStaticTarget (env : Env) (instr : RiscInstr) :
    Emit.Keeps (jalrStaticTarget env instr) := by
  intro f s hinv
  unfold jalrStaticTarget
  split
  · refine ⟨fun a s' h => absurd h nofun, fun e h => ?_⟩
    obtain rfl := Except.error.inj h
    exact nofun
  · refine ⟨fun a s' h => ?_, fun e h => absurd h nofun⟩
    obtain ⟨-, rfl⟩ := Prod.mk.inj (Except.ok.inj h)
    exact hinv

/-- The property holds of whatever the translator of an instruction is built from. -/
theorem closed_keeps (env : Env) : Closed env fun _ x => Emit.Keeps x where
  ret := .ret
  bind := .bind
  get := Emit.keeps_get
  lift := Emit.keeps_lift
  lookupCacheEntry := Emit.keeps_lookupCacheEntry
  encJump := Emit.keeps_encJump env
  encDummy := Emit.keeps_encDummy env
  replaceJump := Emit.keeps_replaceJump env
  replaceJumpHere := Emit.keeps_replaceJumpHere env
  jalrStaticTarget := keeps_jalrStaticTarget env

/-- Translating an instruction adds no entry to the code cache. -/
theorem keeps_translateRiscInstr (env : Env) (instr : RiscInstr) :
    Emit.Keeps (translateRiscInstr env instr) :=
  (closed_keeps env).translateRiscInstr instr fun _ => Emit.keeps_critical env

/-! ## Emission of a block -/

/-- An address within the instruction memory or its end. -/
def InInstrMem (loc : CacheLoc) : Prop := instrMemBase ≤ loc.toNat ∧ loc.toNat ≤ translatorBase

/-- Code of the buffer is not the entry for code that was never seen. -/
theorem InInstrMem.ne_unseen {loc : CacheLoc} (h : InInstrMem loc) : loc ≠ unseenCode := by
  rintro rfl
  exact absurd h.1 (by decide)

theorem inInstrMem_base : InInstrMem (BitVec.ofNat 64 instrMemBase) := by
  constructor
  · decide
  · decide

/-- Code of the buffer is not the mark. -/
theorem InInstrMem.ne_started {loc : CacheLoc} (h : InInstrMem loc) :
    loc ≠ translationStarted := by
  rintro rfl
  exact absurd h.1 (by decide)

section Blocks

variable (env : Env) {f : RiscAddr → Option CacheLoc}

/-- An instruction that is added keeps the table and is noted in the block. -/
theorem addInstr_spec (instr : RiscInstr) {s : BlockState} (hinv : Inv s.cache f) :
    (∀ s', addInstr env instr s = .ok s' → Inv s'.cache f ∧ s'.block.head = s.block.head ∧
      s'.block.instrs = s.block.instrs ++ [instr]) ∧
    ∀ e, addInstr env instr s = .error e → e ≠ .outOfFuel := by
  unfold addInstr
  dsimp only
  generalize hstart : (⟨_, _, s.gen, s.cache, _⟩ : EmitState) = e₀
  have hcache : Inv e₀.cache f := by
    rw [← hstart]
    exact hinv
  obtain ⟨hok, herr⟩ := keeps_translateRiscInstr env instr f e₀ hcache
  cases hrun : translateRiscInstr env instr e₀ with
  | error reason =>
      refine ⟨fun s' h => absurd h nofun, fun e h => ?_⟩
      obtain rfl : reason = e := Except.error.inj h
      exact herr reason hrun
  | ok p =>
      refine ⟨fun s' h => ?_, fun e h => absurd h nofun⟩
      obtain rfl := Except.ok.inj h
      exact ⟨hok p.1 p.2 hrun, rfl, by simp [Block.instrs]⟩

/-- The same for a list of instructions. -/
theorem addInstrs_spec (instrs : List RiscInstr) {s : BlockState} (hinv : Inv s.cache f) :
    (∀ s', addInstrs env instrs s = .ok s' → Inv s'.cache f ∧ s'.block.head = s.block.head ∧
      s'.block.instrs = s.block.instrs ++ instrs) ∧
    ∀ e, addInstrs env instrs s = .error e → e ≠ .outOfFuel := by
  induction instrs generalizing s with
  | nil =>
      refine ⟨fun s' h => ?_, fun e h => absurd h nofun⟩
      obtain rfl := Except.ok.inj h
      exact ⟨hinv, rfl, (List.append_nil _).symm⟩
  | cons instr instrs ih =>
      obtain ⟨hok, herr⟩ := addInstr_spec env instr hinv
      show (∀ s', (addInstr env instr s).bind (addInstrs env instrs) = .ok s' → _) ∧
        ∀ e, (addInstr env instr s).bind (addInstrs env instrs) = .error e → _
      cases hrun : addInstr env instr s with
      | error reason =>
          refine ⟨fun s' h => absurd h nofun, fun e h => ?_⟩
          obtain rfl : reason = e := Except.error.inj h
          exact herr reason hrun
      | ok s₁ =>
          obtain ⟨hinv₁, hhead₁, hinstrs₁⟩ := hok s₁ hrun
          obtain ⟨hok', herr'⟩ := ih hinv₁
          refine ⟨fun s' h => ?_, herr'⟩
          obtain ⟨hinv', hhead', hinstrs'⟩ := hok' s' h
          refine ⟨hinv', hhead'.trans hhead₁, ?_⟩
          rw [hinstrs', hinstrs₁, List.append_assoc, List.singleton_append]

/-- A block that is finished has kept its start and its instructions, and lies in the buffer. -/
theorem finalizeBlock_spec (linkNull : Bool) {s : BlockState} :
    (∀ r, finalizeBlock env linkNull s = .ok r → r.2.cache = s.cache ∧
      r.1.head = s.block.head ∧ r.1.instrs = s.block.instrs ∧
      r.1.head.toNat + env.enc.codeSize r.1.code ≤ translatorBase) ∧
    ∀ e, finalizeBlock env linkNull s = .error e → e ≠ .outOfFuel := by
  unfold finalizeBlock
  dsimp only
  split
  · refine ⟨fun r h => absurd h nofun, fun e h => ?_⟩
    obtain rfl := Except.error.inj h
    exact nofun
  rename_i hsize
  split
  · refine ⟨fun r h => absurd h nofun, fun e h => ?_⟩
    obtain rfl := Except.error.inj h
    exact nofun
  · refine ⟨fun r h => ?_, fun e h => absurd h nofun⟩
    obtain rfl := Except.ok.inj h
    exact ⟨rfl, rfl, rfl, Nat.not_lt.1 hsize⟩

/-- The address behind code that fits is in the buffer. -/
theorem inInstrMem_after {head : CacheLoc} {code : List X86.FeInstr} (h : InInstrMem head)
    (hsize : head.toNat + env.enc.codeSize code ≤ translatorBase) :
    InInstrMem (env.enc.after head code) := by
  have hbase : translatorBase < 2 ^ 64 := by decide
  have hnat : (env.enc.after head code).toNat = head.toNat + env.enc.codeSize code := by
    unfold X86.Encoder.after
    rw [BitVec.toNat_add, BitVec.toNat_ofNat, Nat.add_mod_mod, Nat.mod_eq_of_lt (by omega)]
  unfold InInstrMem
  rw [hnat]
  have := h.1
  omega

/-- The block starts where the buffer was free, and the table says the same as before. -/
theorem translateBlockInstructions_spec (entries : List RiscInstr) {t : TransState}
    (hinv : Inv t.cache f) (hpos : InInstrMem t.currentPos) :
    (∀ b t', translateBlockInstructions env entries t = .ok (b, t') →
      Inv t'.cache f ∧ InInstrMem t'.currentPos ∧ t'.blocks = t.blocks ∧
        b.head = t.currentPos ∧ b.instrs = optimized env entries) ∧
    ∀ e, translateBlockInstructions env entries t = .error e → e ≠ .outOfFuel := by
  obtain ⟨hok, herr⟩ := addInstrs_spec env (optimized env entries)
    (s := initBlock env t) hinv
  have hunfold : translateBlockInstructions env entries t =
      (addInstrs env (optimized env entries) (initBlock env t)).bind fun b =>
        (finalizeBlock env (endsInEcall (optimized env entries)) b).bind fun r =>
          .ok (r.1, { t with
            cache := r.2.cache
            currentPos := env.enc.after r.1.head r.1.code
            rInfo := r.2.gen.rInfo }) := rfl
  rw [hunfold]
  -- an error is that of an entry or that of the end of the block
  cases hadd : addInstrs env (optimized env entries) (initBlock env t) with
  | error reason =>
      refine ⟨fun b t' h => absurd h nofun, fun e h => ?_⟩
      obtain rfl : reason = e := Except.error.inj h
      exact herr reason hadd
  | ok s =>
      obtain ⟨hcache, hhead, hinstrs⟩ := hok s hadd
      obtain ⟨hok', herr'⟩ := finalizeBlock_spec env
        (endsInEcall (optimized env entries)) (s := s)
      show (∀ b t', (finalizeBlock env _ s).bind _ = .ok (b, t') → _) ∧
        ∀ e, (finalizeBlock env _ s).bind _ = .error e → _
      cases hfin : finalizeBlock env (endsInEcall (optimized env entries)) s with
      | error reason =>
          refine ⟨fun b t' h => absurd h nofun, fun e h => ?_⟩
          obtain rfl : reason = e := Except.error.inj h
          exact herr' reason hfin
      | ok r =>
          obtain ⟨hsame, hhead', hinstrs', hsize⟩ := hok' r hfin
          refine ⟨fun b t' h => ?_, fun e h => absurd h nofun⟩
          obtain ⟨rfl, rfl⟩ := Prod.mk.inj (Except.ok.inj h)
          have hstart : r.1.head = t.currentPos := hhead'.trans hhead
          refine ⟨?_, ?_, rfl, hstart, ?_⟩
          · show Inv r.2.cache f
            rwa [hsame]
          · exact inInstrMem_after env (by rwa [hstart]) hsize
          · rw [hinstrs', hinstrs]
            rfl

/-- The direct jumps of a block so far lead into it or to what is not a mark. -/
def BlockDirect (b : Block) : Prop :=
  ∀ chunk ∈ b.chunks, isDirect chunk.1 → ∀ target ∈ directTargets chunk.2,
    target ≠ translationStarted ∨
      ∃ k ≤ env.enc.codeSize b.body, target = b.head + BitVec.ofNat 64 k

/-- No jump of the block leads to the mark after another instruction. -/
theorem addInstr_direct {instr : RiscInstr} {s s' : BlockState}
    (h : addInstr env instr s = .ok s') (hs : BlockDirect env s.block) :
    BlockDirect env s'.block := by
  unfold addInstr at h
  dsimp only at h
  generalize hstart : (⟨_, [], s.gen, s.cache, _⟩ : EmitState) = e₀ at h
  cases hrun : translateRiscInstr env instr e₀ with
  | error reason =>
      rw [hrun] at h
      exact absurd h nofun
  | ok p =>
      rw [hrun] at h
      obtain rfl := Except.ok.inj h
      have hbody : Block.body { s.block with
          chunks := s.block.chunks ++ [(instr, p.2.code)], garbled := p.2.garbled } =
          s.block.body ++ p.2.code := by
        simp [Block.body]
      intro chunk hchunk hdirect target htarget
      show _ ∨ ∃ k ≤ env.enc.codeSize (Block.body _), target = s.block.head + BitVec.ofNat 64 k
      rw [hbody, X86.Encoder.codeSize_append]
      -- older chunks keep their targets; those of the new chunk are counted from its start
      rcases List.mem_append.1 hchunk with hmem | hmem
      · rcases hs chunk hmem hdirect target htarget with hne | ⟨k, hk, heq⟩
        · exact .inl hne
        · exact .inr ⟨k, by omega, heq⟩
      · obtain rfl := List.mem_singleton.1 hmem
        have hempty : Direct env e₀.start e₀ := by
          rw [← hstart]
          exact ⟨rfl, fun _ h => absurd h List.not_mem_nil⟩
        obtain ⟨hsame, htargets⟩ :=
          (leads_translateRiscInstr env hdirect e₀.start e₀ hempty).1 p.1 p.2 hrun
        rcases htargets target htarget with hne | ⟨k, hk, heq⟩
        · exact .inl hne
        · refine .inr ⟨env.enc.codeSize s.block.body + k, by omega, ?_⟩
          rw [heq, hsame, ← hstart, BitVec.ofNat_add, ← BitVec.add_assoc]
          rfl

theorem addInstrs_direct {instrs : List RiscInstr} {s s' : BlockState}
    (h : addInstrs env instrs s = .ok s') (hs : BlockDirect env s.block) :
    BlockDirect env s'.block := by
  induction instrs generalizing s with
  | nil =>
      obtain rfl := Except.ok.inj h
      exact hs
  | cons instr instrs ih =>
      change (addInstr env instr s).bind (addInstrs env instrs) = .ok s' at h
      cases hrun : addInstr env instr s with
      | error reason =>
          rw [hrun] at h
          exact absurd h nofun
      | ok s₁ =>
          rw [hrun] at h
          exact ih h (addInstr_direct env hrun hs)

/-- No direct jump of a block leads to a mark. -/
def AvoidsMark (b : Block) : Prop :=
  ∀ chunk ∈ b.chunks, isDirect chunk.1 → ∀ target ∈ directTargets chunk.2,
    target ≠ translationStarted

/-- The exits of a finished block do not lead to the mark. -/
theorem finalizeBlock_direct {linkNull : Bool} {s : BlockState} {r : Block × BlockState}
    (h : finalizeBlock env linkNull s = .ok r) (hs : BlockDirect env s.block)
    (hhead : InInstrMem s.block.head) : AvoidsMark r.1 := by
  have hsize := ((finalizeBlock_spec env linkNull).1 r h).2.2.2
  unfold finalizeBlock at h
  dsimp only at h
  split at h
  · exact absurd h nofun
  split at h
  · exact absurd h nofun
  obtain rfl := Except.ok.inj h
  intro chunk hchunk hdirect target htarget
  rcases hs chunk hchunk hdirect target htarget with hne | ⟨k, hk, rfl⟩
  · exact hne
  · have hle : s.block.head.toNat + k ≤ translatorBase := by
      refine Nat.le_trans ?_ hsize
      show s.block.head.toNat + k ≤ s.block.head.toNat + env.enc.codeSize (s.block.body ++ _)
      rw [X86.Encoder.codeSize_append]
      omega
    have hbase : translatorBase < 2 ^ 64 := by decide
    have hnat : (s.block.head + BitVec.ofNat 64 k).toNat = s.block.head.toNat + k := by
      rw [BitVec.toNat_add, BitVec.toNat_ofNat, Nat.add_mod_mod, Nat.mod_eq_of_lt (by omega)]
    have hlow := hhead.1
    refine InInstrMem.ne_started ⟨?_, ?_⟩
    · rw [hnat]
      omega
    · rw [hnat]
      exact hle

/-- No jump of a translated block leads to the mark. -/
theorem translateBlockInstructions_direct {entries : List RiscInstr} {t t' : TransState}
    {b : Block} (h : translateBlockInstructions env entries t = .ok (b, t'))
    (hpos : InInstrMem t.currentPos) (hinv : Inv t.cache f) : AvoidsMark b := by
  change (addInstrs env (optimized env entries) (initBlock env t)).bind _ = _ at h
  cases hadd : addInstrs env (optimized env entries) (initBlock env t) with
  | error reason =>
      rw [hadd] at h
      exact absurd h nofun
  | ok s =>
      rw [hadd] at h
      change (finalizeBlock env _ s).bind _ = _ at h
      cases hfin : finalizeBlock env (endsInEcall (optimized env entries)) s with
      | error reason =>
          rw [hfin] at h
          exact absurd h nofun
      | ok r =>
          rw [hfin] at h
          obtain ⟨rfl, -⟩ := Prod.mk.inj (Except.ok.inj h)
          have hhead : s.block.head = t.currentPos :=
            ((addInstrs_spec env _ (s := initBlock env t) hinv).1 s hadd).2.1
          refine finalizeBlock_direct env hfin (addInstrs_direct env hadd ?_) (by rwa [hhead])
          exact fun _ h => absurd h List.not_mem_nil

end Blocks

/-! ## The recursion -/

theorem translationStarted_ne_unseen : translationStarted ≠ unseenCode := by decide

/-- A block whose entries are those that are parsed from an address, with some contents
of the guest's code memory. -/
def TranslatedFrom (env : Env) (a : RiscAddr) (b : Block) : Prop :=
  ∃ mem entries, IsBlock { env with mem := mem } (blockCacheSize env) a entries ∧
    b.instrs = optimized env entries

/-- `loc` is the start of a block that has been translated from `a`. -/
def Finished (blocks : List (RiscAddr × Block)) (a : RiscAddr) (loc : CacheLoc) : Prop :=
  InInstrMem loc ∧ ∃ b, (a, b) ∈ blocks ∧ b.head = loc

/-- The cache maps addresses to finished blocks, up to marks on the addresses in `P`. -/
structure TransInv (env : Env) (P : RiscAddr → Prop) (f : RiscAddr → Option CacheLoc)
    (t : TransState) : Prop where
  cache : Inv t.cache f
  pos : InInstrMem t.currentPos
  entries : ∀ a loc, f a = some loc → (loc = translationStarted ∧ P a) ∨ Finished t.blocks a loc
  blocks : ∀ a b, (a, b) ∈ t.blocks → TranslatedFrom env a b ∧ AvoidsMark b

/-- At most the addresses in `P` are marked. -/
def Marks (env : Env) (P : RiscAddr → Prop) (t : TransState) : Prop := ∃ f, TransInv env P f t

/-- A translation of blocks keeps the marks and returns finished code. -/
def KeepsMarks (env : Env) (translateBlock : RiscAddr → Trans CacheLoc) : Prop :=
  ∀ P a, Spec (Marks env P) (translateBlock a)
    (fun loc t => Marks env P t ∧ Finished t.blocks a loc) fun _ => True

section Recursion

variable {env : Env} {P : RiscAddr → Prop} {tb : RiscAddr → Trans CacheLoc}

/-- What a lookup finds is the mark of a translation in progress, or a finished block. -/
theorem lookupCacheEntry_marks (a : RiscAddr) :
    Spec (Marks env P) (Trans.lookupCacheEntry a)
      (fun loc t => Marks env P t ∧ (loc ≠ unseenCode →
        (loc = translationStarted ∧ P a) ∨ Finished t.blocks a loc)) (· ≠ .outOfFuel) := by
  rintro t ⟨f, hinv⟩
  obtain ⟨c', hlookup, hcache⟩ := hinv.cache.lookupCacheEntry a
  unfold Trans.lookupCacheEntry
  rw [hlookup]
  refine ⟨fun loc t' h => ?_, fun e h => absurd h nofun⟩
  obtain ⟨rfl, rfl⟩ := Prod.mk.inj (Except.ok.inj h)
  refine ⟨⟨f, hcache, hinv.pos, hinv.entries, hinv.blocks⟩, fun hseen => ?_⟩
  cases hfa : f a with
  | none => exact absurd (by rw [hfa]; rfl) hseen
  | some loc => exact hinv.entries a loc hfa

/-- An entry with finished code takes the place of a mark. -/
theorem setCacheEntry_finished (a : RiscAddr) (loc : CacheLoc) :
    Spec (fun t => Marks env (fun x => P x ∨ x = a) t ∧ Finished t.blocks a loc)
      (Trans.setCacheEntry a loc) (fun _ => Marks env P) (· ≠ .outOfFuel) := by
  rintro t ⟨⟨f, hinv⟩, hfin⟩
  obtain ⟨c', hset, hcache⟩ := hinv.cache.setCacheEntry a hfin.1.ne_unseen
  unfold Trans.setCacheEntry
  rw [hset]
  refine ⟨fun _ t' h => ?_, fun e h => absurd h nofun⟩
  obtain ⟨-, rfl⟩ := Prod.mk.inj (Except.ok.inj h)
  refine ⟨_, hcache, hinv.pos, fun x loc' hx => ?_, hinv.blocks⟩
  by_cases hxa : x = a
  · subst hxa
    rw [Function.update_self] at hx
    obtain rfl := Option.some.inj hx
    exact .inr hfin
  · rw [Function.update_of_ne hxa] at hx
    rcases hinv.entries x loc' hx with ⟨hloc, hP | hP⟩ | h
    · exact .inl ⟨hloc, hP⟩
    · exact absurd hP hxa
    · exact .inr h

/-- A new mark. -/
theorem setCacheEntry_started (a : RiscAddr) :
    Spec (Marks env P) (Trans.setCacheEntry a translationStarted)
      (fun _ => Marks env fun x => P x ∨ x = a) (· ≠ .outOfFuel) := by
  rintro t ⟨f, hinv⟩
  obtain ⟨c', hset, hcache⟩ := hinv.cache.setCacheEntry a
    translationStarted_ne_unseen
  unfold Trans.setCacheEntry
  rw [hset]
  refine ⟨fun _ t' h => ?_, fun e h => absurd h nofun⟩
  obtain ⟨-, rfl⟩ := Prod.mk.inj (Except.ok.inj h)
  refine ⟨_, hcache, hinv.pos, fun x loc' hx => ?_, hinv.blocks⟩
  by_cases hxa : x = a
  · subst hxa
    rw [Function.update_self] at hx
    exact .inl ⟨(Option.some.inj hx).symm, .inr rfl⟩
  · rw [Function.update_of_ne hxa] at hx
    rcases hinv.entries x loc' hx with ⟨hloc, hP⟩ | h
    · exact .inl ⟨hloc, .inl hP⟩
    · exact .inr h

/-- Translating a target ahead finishes it or leaves it alone. -/
theorem translateUnseen_marks (htb : KeepsMarks env tb) (target : RiscAddr) :
    Spec (Marks env P) (translateUnseen tb target) (fun _ => Marks env P) fun _ => True :=
  ((setCacheEntry_started target).mono fun _ _ => trivial).bind fun _ =>
    (htb _ target).bind fun loc => (setCacheEntry_finished target loc).mono fun _ _ => trivial

/-- The same for a target that may be known already. -/
theorem translateTarget_marks (htb : KeepsMarks env tb) (target : RiscAddr) :
    Spec (Marks env P) (translateTarget tb target) (fun _ => Marks env P) fun _ => True := by
  refine Spec.bind ((lookupCacheEntry_marks target).mono fun _ _ => trivial) fun loc => ?_
  refine Spec.ite (fun _ => ?_) fun _ => ?_
  · exact (translateUnseen_marks htb target).conseq (fun _ h => h.1) fun _ _ h => h
  · exact Spec.ret fun _ h => h.1

/-- The loop of the parser begins translations and finishes them again. -/
theorem parseLoop_marks (htb : KeepsMarks env tb) (maxCount fuel : Nat) (s : ParseState) :
    Spec (Marks env P) (parseLoop env tb maxCount fuel s) (fun _ => Marks env P)
      fun _ => True := by
  induction fuel generalizing s with
  | zero => exact Spec.fail trivial
  | succ fuel ih =>
      unfold parseLoop
      refine Spec.ite (fun _ => ?_) fun _ => Spec.ret fun _ h => h
      refine Spec.bind (parseStep_spec s (parseAt_spec (fun _ => trivial) _)
        fun _ _ target _ => translateTarget_marks htb target) fun step => ?_
      cases step with
      | next s' => exact ih s'
      | done s' => exact Spec.ret fun _ h => h

/-- After parsing, the marks are those of before, and the entries are a block. -/
theorem parseBlock_marks (htb : KeepsMarks env tb) (maxCount fuel : Nat) (hmax : 2 ≤ maxCount)
    (a : RiscAddr) :
    Spec (Marks env P) (parseBlock env tb maxCount fuel a)
      (fun entries t => Marks env P t ∧ IsBlock env maxCount a entries) fun _ => True := by
  have hloop : Spec (Marks env P) (parseBlock env tb maxCount fuel a) (fun _ => Marks env P)
      fun _ => True :=
    (parseLoop_marks htb maxCount fuel (.init a)).bind fun _ => Spec.ret fun _ h => h
  intro t hmarks
  exact ⟨fun entries t' h => ⟨(hloop t hmarks).1 entries t' h, parseBlock_ok hmax h⟩,
    fun _ _ => trivial⟩

theorem two_le_blockCacheSize (env : Env) : 2 ≤ blockCacheSize env := by
  unfold blockCacheSize
  split <;> omega

/-- No run of the translator leaves a mark behind, by induction on the fuel. -/
theorem translateBlock_marks (fuel : Nat) : KeepsMarks env (translateBlock env fuel) := by
  induction fuel with
  | zero => exact fun P a => Spec.fail trivial
  | succ fuel ih =>
      intro P a
      refine Spec.bind
        (parseBlock_marks ih _ (fuel + 1) (two_le_blockCacheSize env) a) fun entries => ?_
      rintro t ⟨⟨f, hinv⟩, hblock⟩
      refine ⟨fun loc t' h => ?_, fun _ _ => trivial⟩
      obtain ⟨b, t₁, hemit, hrest⟩ := bind_ok h
      obtain ⟨hcache, hpos, hblocks, hhead, hinstrs⟩ :=
        (translateBlockInstructions_spec env entries hinv.cache hinv.pos).1 b t₁ hemit
      obtain ⟨u, t₂, hrecord, hret⟩ := bind_ok hrest
      obtain ⟨-, rfl⟩ := Prod.mk.inj (Except.ok.inj hrecord)
      obtain ⟨rfl, rfl⟩ := pure_ok hret
      refine ⟨⟨f, hcache, hpos, fun x loc' hx => ?_, fun x b' hmem => ?_⟩, ?_, b,
        List.mem_cons_self, rfl⟩
      · rcases hinv.entries x loc' hx with h | ⟨hloc, b', hmem, hb'⟩
        · exact .inl h
        · exact .inr ⟨hloc, b', List.mem_cons_of_mem _ (hblocks ▸ hmem), hb'⟩
      · rcases List.mem_cons.1 hmem with heq | hmem
        · obtain ⟨rfl, rfl⟩ := Prod.mk.inj heq
          exact ⟨⟨env.mem, entries, hblock, hinstrs⟩,
            translateBlockInstructions_direct env hemit hinv.pos hinv.cache⟩
        · exact hinv.blocks x b' (hblocks ▸ hmem)
      · rw [hhead]
        exact hinv.pos

end Recursion

end RiaJit.Translate
