import RiaJit.Gen.Termination

/-!
# The dispatcher loop

The lookups and translations of `transcode_loop`. What is executed in between decides
which address comes next and may change the guest's code memory, so a run is given by
the addresses and the code memories; the translator's state only changes here.
-/

set_option autoImplicit false

namespace RiaJit.Translate

open StateExcept CodeCache

/-- One iteration of `transcode_loop`: the address of the next block, and the code
memory while it is looked up and translated. -/
structure Request where
  nextPc : RiscAddr
  mem : CodeMem

/-- The code that `transcode_loop` executes, one location for each iteration. -/
def transcodeLoop (env : Env) (fuel : Nat) : List Request → Trans (List CacheLoc)
  | [] => return []
  | request :: requests => do
      let cacheLoc ← transcode { env with mem := request.mem } fuel request.nextPc
      let rest ← transcodeLoop env fuel requests
      return cacheLoc :: rest

/-- An entry of the code cache, in the table or in the TLB. -/
def HasEntry (c : CodeCache) (a : RiscAddr) (loc : CacheLoc) : Prop :=
  loc ≠ unseenCode ∧ ((∃ i < c.tableSize, c.cacheTable i = ⟨a, loc⟩) ∨
    c.tlb (smallhash a) = ⟨a, loc⟩)

/-- All entries of the cache are finished blocks. -/
def AllFinished (t : TransState) : Prop :=
  ∀ a loc, HasEntry t.cache a loc → Finished t.blocks a loc ∧ loc ≠ translationStarted

/-- All blocks are translations of their addresses and jump to no mark. -/
def AllTranslated (env : Env) (t : TransState) : Prop :=
  ∀ a b, (a, b) ∈ t.blocks → TranslatedFrom env a b ∧ AvoidsMark b

/-- No address is marked. -/
def Unmarked (env : Env) : TransState → Prop := Marks env fun _ => False

section

variable {env : Env} {base : List (RiscAddr × Block)}

theorem Finished.mono {blocks blocks' : List (RiscAddr × Block)} {a : RiscAddr} {loc : CacheLoc}
    (h : Finished blocks a loc) (hle : blocks ⊆ blocks') : Finished blocks' a loc := by
  obtain ⟨hloc, b, hmem, hhead⟩ := h
  exact ⟨hloc, b, hle hmem, hhead⟩

theorem unmarked_initial {pos : CacheLoc} (hpos : InInstrMem pos) :
    Unmarked env (.initial pos) :=
  ⟨fun _ => none, inv_initHashTable, hpos, nofun, fun _ _ h => absurd h List.not_mem_nil⟩

/-- Marks do not depend on the code memory. -/
theorem Unmarked.withMem {t : TransState} (h : Unmarked env t) (mem : CodeMem) :
    Unmarked { env with mem := mem } t := by
  obtain ⟨f, hinv⟩ := h
  exact ⟨f, hinv.cache, hinv.pos, hinv.entries, hinv.blocks⟩

theorem Unmarked.ofMem {t : TransState} {mem : CodeMem}
    (h : Unmarked { env with mem := mem } t) : Unmarked env t := by
  obtain ⟨f, hinv⟩ := h
  exact ⟨f, hinv.cache, hinv.pos, hinv.entries, hinv.blocks⟩

/-- The entry of a finished block keeps the blocks. -/
theorem setCacheEntry_unmarked (a : RiscAddr) (loc : CacheLoc) :
    Spec (fun t => Unmarked env t ∧ base ⊆ t.blocks ∧ Finished t.blocks a loc)
      (Trans.setCacheEntry a loc)
      (fun _ t => Unmarked env t ∧ base ⊆ t.blocks ∧ Finished t.blocks a loc) fun _ => True := by
  rintro t ⟨⟨f, hinv⟩, hbase, hfin⟩
  refine ⟨fun u t' h => ⟨?_, ?_⟩, fun _ _ => trivial⟩
  · have hmarked : Marks env (fun x => False ∨ x = a) t :=
      ⟨f, hinv.cache, hinv.pos,
        fun x l hx => (hinv.entries x l hx).imp_left fun h => ⟨h.1, .inl h.2⟩,
        hinv.blocks⟩
    exact (setCacheEntry_finished a loc t ⟨hmarked, hfin⟩).1 u t' h
  · have hat := (setCacheEntry_at a hfin.1.ne_unseen t ⟨hinv.cache, hinv.pos, rfl⟩).1 u t' h
    rw [hat.blocks]
    exact ⟨hbase, hfin⟩

theorem translateNext_unmarked (fuel : Nat) (a : RiscAddr) :
    Spec (fun t => Unmarked env t ∧ base ⊆ t.blocks) (translateNext env fuel a)
      (fun loc t => Unmarked env t ∧ base ⊆ t.blocks ∧ Finished t.blocks a loc)
      fun _ => True := by
  have hblock : Spec (fun t => Unmarked env t ∧ base ⊆ t.blocks) (translateBlock env fuel a)
      (fun loc t => Unmarked env t ∧ base ⊆ t.blocks ∧ Finished t.blocks a loc)
      fun _ => True := by
    rintro t ⟨hunmarked, hbase⟩
    refine ⟨fun loc t' h => ?_, fun _ _ => trivial⟩
    obtain ⟨hmarks, hfin⟩ := (translateBlock_marks fuel _ a t hunmarked).1 loc t' h
    obtain ⟨f, hinv⟩ := hunmarked
    obtain ⟨-, f', visited, b, -, hat⟩ :=
      (translateBlock_visits fuel f t.blocks a t ⟨hinv.cache, hinv.pos, rfl⟩).1 loc t' h
    refine ⟨hmarks, fun x hx => ?_, hfin⟩
    rw [hat.blocks]
    exact List.mem_append_right _ (hbase hx)
  exact hblock.bind fun loc => (setCacheEntry_unmarked a loc).bind fun _ => Spec.ret fun _ h => h

theorem transcode_unmarked (fuel : Nat) (a : RiscAddr) :
    Spec (fun t => Unmarked env t ∧ base ⊆ t.blocks) (transcode env fuel a)
      (fun loc t => Unmarked env t ∧ base ⊆ t.blocks ∧ Finished t.blocks a loc)
      fun _ => True := by
  have hlookup : Spec (fun t => Unmarked env t ∧ base ⊆ t.blocks) (Trans.lookupCacheEntry a)
      (fun loc t => (Unmarked env t ∧ base ⊆ t.blocks) ∧
        (loc ≠ unseenCode → Finished t.blocks a loc)) fun _ => True := by
    rintro t ⟨hunmarked, hbase⟩
    refine ⟨fun loc t' h => ?_, fun _ _ => trivial⟩
    obtain ⟨hmarks, hseen⟩ := (lookupCacheEntry_marks a t hunmarked).1 loc t' h
    obtain ⟨f, hinv⟩ := hunmarked
    have hat := (lookupCacheEntry_at a t ⟨hinv.cache, hinv.pos, rfl⟩).1 loc t' h
    refine ⟨⟨hmarks, ?_⟩, fun hloc => ?_⟩
    · rw [hat.1.blocks]
      exact hbase
    · rcases hseen hloc with ⟨-, hfalse⟩ | hfin
      · exact hfalse.elim
      · exact hfin
  refine hlookup.bind fun loc => Spec.ite (fun _ => ?_) fun hseen => Spec.ret fun t h => ?_
  · exact (translateNext_unmarked fuel a).conseq (fun _ h => h.1) fun _ _ h => h
  · exact ⟨h.1.1, h.1.2, h.2 hseen⟩

theorem transcodeLoop_unmarked (fuel : Nat) (requests : List Request) :
    Spec (fun t => Unmarked env t ∧ base ⊆ t.blocks) (transcodeLoop env fuel requests)
      (fun locs t => Unmarked env t ∧ base ⊆ t.blocks ∧
        List.Forall₂ (fun request loc => Finished t.blocks request.nextPc loc) requests locs)
      fun _ => True := by
  induction requests generalizing base with
  | nil => exact Spec.ret fun t h => ⟨h.1, h.2, .nil⟩
  | cons request requests ih =>
      -- the marks of a state do not depend on the code memory
      have hstep : Spec (fun t => Unmarked env t ∧ base ⊆ t.blocks)
          (transcode { env with mem := request.mem } fuel request.nextPc)
          (fun loc t => Unmarked env t ∧ base ⊆ t.blocks ∧ Finished t.blocks request.nextPc loc)
          fun _ => True :=
        (@transcode_unmarked { env with mem := request.mem } base fuel request.nextPc).conseq
          (fun _ h => ⟨h.1.withMem request.mem, h.2⟩) fun _ _ h => ⟨h.1.ofMem, h.2⟩
      refine hstep.bind fun loc t h => ?_
      obtain ⟨hunmarked, hbase, hfin⟩ := h
      refine Spec.bind (@ih t.blocks) (fun locs => Spec.ret fun t' h' => ?_) t
        ⟨hunmarked, fun _ h => h⟩
      exact ⟨h'.1, fun _ hx => h'.2.1 (hbase hx), .cons (hfin.mono h'.2.1) h'.2.2⟩

/-- Without marks all entries, of the table and of the TLB, are finished blocks. -/
theorem Unmarked.allFinished {t : TransState} (h : Unmarked env t) : AllFinished t := by
  obtain ⟨f, hinv⟩ := h
  rintro a loc ⟨hloc, hentry⟩
  have hfa : f a = some loc := by
    rcases hentry with ⟨i, hi, hslot⟩ | htlb
    · refine (hinv.cache.table.repr a loc).1 ⟨i, hi, ?_⟩
      have hold : (t.cache.cacheTable i).cacheLoc ≠ 0#64 := by rwa [hslot]
      rw [slots_eq_some hold, hslot]
    · have hmap := hinv.cache.tlb a (by rw [htlb])
      rw [htlb] at hmap
      cases hfa : f a with
      | none =>
          rw [hfa] at hmap
          exact absurd hmap hloc
      | some loc' =>
          rw [hfa] at hmap
          exact congrArg some hmap.symm
  rcases hinv.entries a loc hfa with ⟨-, hfalse⟩ | hfin
  · exact hfalse.elim
  · exact ⟨hfin, hfin.1.ne_started⟩

theorem started_not_mem {blocks : List (RiscAddr × Block)} {requests : List Request}
    {locs : List CacheLoc}
    (h : List.Forall₂ (fun request loc => Finished blocks request.nextPc loc) requests locs) :
    translationStarted ∉ locs := by
  induction h with
  | nil => exact List.not_mem_nil
  | cons hfin _ ih =>
      intro hmem
      rcases List.mem_cons.1 hmem with heq | hmem
      · exact hfin.1.ne_started heq.symm
      · exact ih hmem

end

/-- In every run of the dispatcher loop, once the last block has been entered, all
entries of the code cache are starts of finished blocks translated from their
addresses, no code that is executed is a mark, and no direct jump leads to one. -/
theorem transcodeLoop_no_mark (env : Env) (pos : CacheLoc) (hpos : InInstrMem pos) (fuel : Nat)
    (requests : List Request) (locs : List CacheLoc) (t : TransState)
    (h : transcodeLoop env fuel requests (.initial pos) = .ok (locs, t)) :
    AllFinished t ∧ AllTranslated env t ∧
      List.Forall₂ (fun request loc => Finished t.blocks request.nextPc loc) requests locs ∧
      translationStarted ∉ locs := by
  obtain ⟨hunmarked, -, hlocs⟩ := (transcodeLoop_unmarked fuel requests (.initial pos)
    ⟨unmarked_initial hpos, List.nil_subset _⟩).1 locs t h
  obtain ⟨f, hinv⟩ := id hunmarked
  exact ⟨hunmarked.allFinished, hinv.blocks, hlocs, started_not_mem hlocs⟩

theorem transcodeLoop_no_mark_jumpCycle :
    ∃ locs t, transcodeLoop (Env.plain {} (CodeMem.ofWords 0x1000#64 jumpCycle)) 10
        [⟨0x1000#64, CodeMem.ofWords 0x1000#64 jumpCycle⟩]
        (.initial (BitVec.ofNat 64 instrMemBase)) = .ok (locs, t) ∧
      AllFinished t ∧ translationStarted ∉ locs := by
  have hok : (transcodeLoop (Env.plain {} (CodeMem.ofWords 0x1000#64 jumpCycle)) 10
      [⟨0x1000#64, CodeMem.ofWords 0x1000#64 jumpCycle⟩]
      (.initial (BitVec.ofNat 64 instrMemBase))).toBool = true := by decide +kernel
  cases hrun : transcodeLoop (Env.plain {} (CodeMem.ofWords 0x1000#64 jumpCycle)) 10
      [⟨0x1000#64, CodeMem.ofWords 0x1000#64 jumpCycle⟩]
      (.initial (BitVec.ofNat 64 instrMemBase)) with
  | error e =>
      rw [hrun] at hok
      exact absurd hok nofun
  | ok r =>
      obtain ⟨hfinished, -, -, hmark⟩ :=
        transcodeLoop_no_mark _ _ inInstrMem_base 10 _ r.1 r.2 hrun
      exact ⟨r.1, r.2, rfl, hfinished, hmark⟩

end RiaJit.Translate
