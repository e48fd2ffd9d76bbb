import RiaJit.Gen.LinkedBlock
import RiaJit.Gen.TranscodeLoop

/-!
# The translated code as a whole

What holds of all blocks between two iterations of the dispatcher: they lie apart in the
instruction memory, each leads on, and no replacement holds a register. The translation of
an address, with the recursive translations of its targets, keeps this.
-/

set_option autoImplicit false

namespace RiaJit.Translate

open StateExcept CodeCache

/-- The first address behind the code of a block. -/
def Block.finish (env : Env) (b : Block) : Nat := b.head.toNat + env.enc.codeSize b.code

/-- Two blocks have no address in common. -/
def Block.Apart (env : Env) (b b' : Block) : Prop :=
  b.finish env ≤ b'.head.toNat ∨ b'.finish env ≤ b.head.toNat

/-- The blocks lie apart, below the current position, and lead on to each other. -/
structure LaidOut (env : Env) (ext : Extension) (base : List (RiscAddr × Block))
    (t : TransState) : Prop where
  wf : t.rInfo.WellFormed
  empty : t.rInfo.Empty
  grown : base ⊆ t.blocks
  leads : ∀ a b, (a, b) ∈ t.blocks → LeadsOn env (fetched env) ext (Finished t.blocks) a b
  below : ∀ a b, (a, b) ∈ t.blocks → b.finish env ≤ t.currentPos.toNat
  apart : ∀ p ∈ t.blocks, ∀ q ∈ t.blocks, p ≠ q → Block.Apart env p.2 q.2

/-- A translation of blocks keeps the layout. -/
def KeepsLayout (env : Env) (ext : Extension) (base : List (RiscAddr × Block))
    (translateBlock : RiscAddr → Trans CacheLoc) : Prop :=
  ∀ P a, Spec (fun t => Marks env P t ∧ LaidOut env ext base t) (translateBlock a)
    (fun loc t => (Marks env P t ∧ Finished t.blocks a loc) ∧ LaidOut env ext base t)
    fun _ => True

section

variable {env : Env} {ext : Extension} {base : List (RiscAddr × Block)} {P : RiscAddr → Prop}
  {tb : RiscAddr → Trans CacheLoc} {t : TransState}

theorem LeadsOn.mono {program : Program} {finished finished' : RiscAddr → CacheLoc → Prop}
    {a : RiscAddr} {b : Block} (h : LeadsOn env program ext finished a b)
    (hle : ∀ a loc, finished a loc → finished' a loc) :
    LeadsOn env program ext finished' a b := by
  intro g hright
  obtain ⟨hgarbled, last, hlast, hleads⟩ := h g hright
  exact ⟨hgarbled, last, hlast, fun fin code h hfin =>
    hleads fin code h fun a loc hloc => hfin a loc (hle a loc hloc)⟩

/-- The layout does not depend on the cache. -/
theorem LaidOut.withCache (h : LaidOut env ext base t) (cache : CodeCache) :
    LaidOut env ext base { t with cache := cache } :=
  ⟨h.wf, h.empty, h.grown, h.leads, h.below, h.apart⟩

theorem lookupCacheEntry_layout (a : RiscAddr) :
    Spec (LaidOut env ext base) (Trans.lookupCacheEntry a) (fun _ => LaidOut env ext base)
      fun _ => True := by
  intro t hlaid
  refine ⟨fun loc t' h => ?_, fun _ _ => trivial⟩
  unfold Trans.lookupCacheEntry at h
  split at h
  · cases h
  · obtain ⟨-, rfl⟩ := Prod.mk.inj (Except.ok.inj h)
    exact hlaid.withCache _

theorem setCacheEntry_layout (a : RiscAddr) (loc : CacheLoc) :
    Spec (LaidOut env ext base) (Trans.setCacheEntry a loc) (fun _ => LaidOut env ext base)
      fun _ => True := by
  intro t hlaid
  refine ⟨fun _ t' h => ?_, fun _ _ => trivial⟩
  unfold Trans.setCacheEntry at h
  split at h
  · cases h
  · obtain ⟨-, rfl⟩ := Prod.mk.inj (Except.ok.inj h)
    exact hlaid.withCache _

theorem translateUnseen_layout (htb : KeepsLayout env ext base tb) (target : RiscAddr) :
    Spec (fun t => Marks env P t ∧ LaidOut env ext base t) (translateUnseen tb target)
      (fun _ t => Marks env P t ∧ LaidOut env ext base t) fun _ => True := by
  have hmark : Spec (fun t => Marks env P t ∧ LaidOut env ext base t)
      (Trans.setCacheEntry target translationStarted)
      (fun _ t => Marks env (fun x => P x ∨ x = target) t ∧ LaidOut env ext base t)
      fun _ => True :=
    ((setCacheEntry_started target).mono fun _ _ => trivial).and (setCacheEntry_layout _ _)
  have henter : ∀ loc, Spec (fun t => (Marks env (fun x => P x ∨ x = target) t ∧
      Finished t.blocks target loc) ∧ LaidOut env ext base t) (Trans.setCacheEntry target loc)
      (fun _ t => Marks env P t ∧ LaidOut env ext base t) fun _ => True := fun loc =>
    ((setCacheEntry_finished target loc).mono fun _ _ => trivial).and (setCacheEntry_layout _ _)
  exact hmark.bind fun _ => (htb _ target).bind henter

theorem translateTarget_layout (htb : KeepsLayout env ext base tb) (target : RiscAddr) :
    Spec (fun t => Marks env P t ∧ LaidOut env ext base t) (translateTarget tb target)
      (fun _ t => Marks env P t ∧ LaidOut env ext base t) fun _ => True := by
  have hmarks : Spec (Marks env P) (Trans.lookupCacheEntry target) _ _ :=
    lookupCacheEntry_marks target
  have hlayout : Spec (LaidOut env ext base) (Trans.lookupCacheEntry target) _ _ :=
    lookupCacheEntry_layout target
  have hlookup := (hmarks.mono fun _ _ => trivial).and hlayout
  refine Spec.bind hlookup fun loc => Spec.ite (fun _ => ?_) fun _ => ?_
  · exact (translateUnseen_layout htb target).conseq (fun _ h => ⟨h.1.1, h.2⟩) fun _ _ h => h
  · exact Spec.ret fun _ h => ⟨h.1.1, h.2⟩

/-- What the recursive translations keep, the loop of `parse_block` keeps. -/
theorem parseLoop_spec {I : TransState → Prop}
    (htarget : ∀ target, Spec I (translateTarget tb target) (fun _ => I) fun _ => True)
    (maxCount fuel : Nat) (s : ParseState) :
    Spec I (parseLoop env tb maxCount fuel s) (fun _ => I) fun _ => True := by
  induction fuel generalizing s with
  | zero => exact Spec.fail trivial
  | succ fuel ih =>
      unfold parseLoop
      refine Spec.ite (fun _ => ?_) fun _ => Spec.ret fun _ h => h
      refine Spec.bind (parseStep_spec s (parseAt_spec (fun _ => trivial) _)
        fun _ _ target _ => htarget target) fun step => ?_
      cases step with
      | next s' => exact ih s'
      | done s' => exact Spec.ret fun _ h => h

/-- The block that is added leads on, apart from the others. -/
theorem LaidOut.add (hs : Supported env ext) (hlaid : LaidOut env ext base t) {a : RiscAddr}
    {f : RiscAddr → Option CacheLoc} (hinv : TransInv env P f t) {entries : List RiscInstr}
    (hblock : IsBlock env (blockCacheSize env) a entries) {b : Block} {t' : TransState}
    (h : translateBlockInstructions env entries t = .ok (b, t')) :
    LaidOut env ext base { t' with blocks := (a, b) :: t'.blocks } := by
  have hfin : ∀ a loc, f a = some loc → loc ≠ translationStarted → Finished t.blocks a loc := by
    intro x loc hx hne
    rcases hinv.entries x loc hx with ⟨hstarted, -⟩ | hfinished
    · exact absurd hstarted hne
    · exact hfinished
  have hleads :=
    hs.leadsOn (two_le_blockCacheSize env) hlaid.wf hlaid.empty hblock hinv.cache hfin h
  obtain ⟨_, -, -, -, hsize, hrInfo, hblocks, hpos⟩ := translateBlockInstructions_ok hs.fusion h
  obtain ⟨-, -, -, hhead, -⟩ :=
    (translateBlockInstructions_spec env entries hinv.cache hinv.pos).1 b t' h
  have hgrow : ∀ x loc, Finished t.blocks x loc → Finished ((a, b) :: t'.blocks) x loc := by
    intro x loc hx
    rw [hblocks]
    exact hx.mono (List.subset_cons_self ..)
  -- the code of the block reaches from the old position to the new one
  have hfinish : t'.currentPos.toNat = b.finish env := by
    have hbase : translatorBase < 2 ^ 64 := by decide
    unfold Block.finish
    rw [hpos]
    unfold X86.Encoder.after
    rw [BitVec.toNat_add, BitVec.toNat_ofNat, Nat.add_mod_mod, Nat.mod_eq_of_lt (by omega)]
  have hold : ∀ p ∈ t.blocks, p.2.finish env ≤ b.head.toNat := fun p hp =>
    hhead ▸ hlaid.below p.1 p.2 hp
  refine ⟨hrInfo ▸ cleared_wellFormed _, hrInfo ▸ cleared_empty _, fun p hp => ?_,
    fun x b' hmem => ?_, fun x b' hmem => ?_, fun p hp q hq hne => ?_⟩
  · refine List.mem_cons_of_mem _ ?_
    rw [hblocks]
    exact hlaid.grown hp
  · rcases List.mem_cons.1 hmem with heq | hmem
    · obtain ⟨rfl, rfl⟩ := Prod.mk.inj heq
      exact hleads.mono hgrow
    · exact (hlaid.leads x b' (hblocks ▸ hmem)).mono hgrow
  · show b'.finish env ≤ t'.currentPos.toNat
    rw [hfinish]
    rcases List.mem_cons.1 hmem with heq | hmem
    · rw [(Prod.mk.inj heq).2]
    · have hle := hold _ (hblocks ▸ hmem)
      exact hle.trans (Nat.le_add_right _ _)
  · rcases List.mem_cons.1 hp with rfl | hp
    · rcases List.mem_cons.1 hq with rfl | hq
      · exact absurd rfl hne
      · exact .inr (hold q (hblocks ▸ hq))
    · rcases List.mem_cons.1 hq with rfl | hq
      · exact .inl (hold p (hblocks ▸ hp))
      · exact hlaid.apart p (hblocks ▸ hp) q (hblocks ▸ hq) hne

theorem translateBlock_layout (hs : Supported env ext) (fuel : Nat) :
    KeepsLayout env ext base (translateBlock env fuel) := by
  induction fuel with
  | zero => exact fun P a => Spec.fail trivial
  | succ fuel ih =>
      intro P a
      have hloop : Spec (fun t => Marks env P t ∧ LaidOut env ext base t)
          (parseBlock env (translateBlock env fuel) (blockCacheSize env) (fuel + 1) a)
          (fun entries t => (Marks env P t ∧ LaidOut env ext base t) ∧
            IsBlock env (blockCacheSize env) a entries) fun _ => True := by
        have hkeep : Spec (fun t => Marks env P t ∧ LaidOut env ext base t)
            (parseBlock env (translateBlock env fuel) (blockCacheSize env) (fuel + 1) a)
            (fun _ t => Marks env P t ∧ LaidOut env ext base t) fun _ => True :=
          (parseLoop_spec (translateTarget_layout ih) _ (fuel + 1) (.init a)).bind fun _ =>
            Spec.ret fun _ h => h
        exact fun t ht => ⟨fun entries t' h => ⟨(hkeep t ht).1 entries t' h,
          parseBlock_ok (two_le_blockCacheSize env) h⟩, fun _ _ => trivial⟩
      intro t ht
      refine ⟨fun loc t' h => ⟨(translateBlock_marks (fuel + 1) P a t ht.1).1 loc t' h, ?_⟩,
        fun _ _ => trivial⟩
      obtain ⟨entries, t₁, hparse, h⟩ := bind_ok h
      obtain ⟨⟨⟨f, hinv⟩, hlaid⟩, hblock⟩ := (hloop t ht).1 entries t₁ hparse
      obtain ⟨b, t₂, hemit, hrest⟩ := bind_ok h
      obtain ⟨u, t₃, hrecord, hret⟩ := bind_ok hrest
      obtain ⟨-, rfl⟩ := Prod.mk.inj (Except.ok.inj hrecord)
      obtain ⟨rfl, rfl⟩ := pure_ok hret
      exact hlaid.add hs hinv hblock hemit

/-- The code that `transcode_loop` executes next is a finished block of the layout. -/
theorem transcode_layout (hs : Supported env ext) (fuel : Nat) (a : RiscAddr) :
    Spec (fun t => Unmarked env t ∧ LaidOut env ext base t) (transcode env fuel a)
      (fun loc t => (Unmarked env t ∧ LaidOut env ext base t) ∧ Finished t.blocks a loc)
      fun _ => True := by
  have hmarks : Spec (Unmarked env) (Trans.lookupCacheEntry a) _ _ := lookupCacheEntry_marks a
  have hlayout : Spec (LaidOut env ext base) (Trans.lookupCacheEntry a) _ _ :=
    lookupCacheEntry_layout a
  have hlookup := (hmarks.mono fun _ _ => trivial).and hlayout
  have hnext : Spec (fun t => Unmarked env t ∧ LaidOut env ext base t) (translateNext env fuel a)
      (fun _ => LaidOut env ext base) fun _ => True :=
    (translateBlock_layout hs fuel _ a).bind fun loc =>
      ((setCacheEntry_layout a loc).conseq (fun _ h => h.2) fun _ _ h => h).bind fun _ =>
        Spec.ret fun _ h => h
  have hkeep : Spec (fun t => Unmarked env t ∧ LaidOut env ext base t) (transcode env fuel a)
      (fun _ => LaidOut env ext base) fun _ => True := by
    refine Spec.bind hlookup fun loc => Spec.ite (fun _ => ?_) fun _ => Spec.ret fun _ h => h.2
    exact hnext.conseq (fun _ h => ⟨h.1.1, h.2⟩) fun _ _ h => h
  have hbase : Spec (fun t => Unmarked env t ∧ [] ⊆ t.blocks) (transcode env fuel a) _ _ :=
    transcode_unmarked fuel a
  have hunmarked := hbase.conseq
    (fun t (h : Unmarked env t) => ⟨h, List.nil_subset _⟩) fun _ _ h => h
  exact (hunmarked.and hkeep).conseq (fun t h => ⟨h.1, h⟩) fun _ _ h =>
    ⟨⟨h.1.1, h.2⟩, h.1.2.2⟩

theorem laidOut_initial (pos : CacheLoc) : LaidOut env ext [] (.initial pos) :=
  ⟨wellFormed_initial pos, empty_initial pos, List.nil_subset _,
    fun _ _ h => absurd h List.not_mem_nil, fun _ _ h => absurd h List.not_mem_nil,
    fun _ h => absurd h List.not_mem_nil⟩

/-- The layout may be seen from a later state. -/
theorem LaidOut.rebase {base' : List (RiscAddr × Block)} (h : LaidOut env ext base t)
    (hgrown : base' ⊆ t.blocks) : LaidOut env ext base' t :=
  ⟨h.wf, h.empty, hgrown, h.leads, h.below, h.apart⟩

end

end RiaJit.Translate
