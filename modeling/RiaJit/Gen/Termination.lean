import RiaJit.Gen.InProgress

/-!
# Translation terminates

Fuel bounds the depth of the recursion and the iterations of every loop. Enough of it
exists: a recursive translation marks an address that the cache did not know, so the
number of mapped addresses that it does not know falls with the depth; within one call
of `parse_block` an iteration either fills an entry of the buffer or advances in a run
of fences, which ends at an unmapped address.
-/

set_option autoImplicit false

namespace RiaJit.Translate

open StateExcept CodeCache

/-! ## More fuel does not change a result -/

section Approximation

variable {env : Env} {tb tb' : RiscAddr → Trans CacheLoc}

/-- A callback that behaves as another one wherever that one has enough fuel. -/
def ApproxAll (tb tb' : RiscAddr → Trans CacheLoc) : Prop :=
  ∀ a, Approx Stop.outOfFuel (tb a) (tb' a)

/-- With a better translator a target is translated as before, or where fuel ran out. -/
theorem approx_translateTarget (h : ApproxAll tb tb') (target : RiscAddr) :
    Approx Stop.outOfFuel (translateTarget tb target) (translateTarget tb' target) := by
  refine Approx.bind (Approx.refl _) fun loc => Approx.ite ?_ (Approx.refl _)
  exact Approx.bind (Approx.refl _) fun _ => Approx.bind (h target) fun _ => Approx.refl _

/-- The case of a `JAL` is monotone in the translator. -/
theorem approx_parseJal (h : ApproxAll tb tb') (s : ParseState) (instr : RiscInstr) :
    Approx Stop.outOfFuel (parseJal env tb s instr) (parseJal env tb' s instr) := by
  refine Approx.ite (Approx.refl _) (Approx.ite ?_ (Approx.ite ?_ (Approx.refl _)))
  · exact Approx.bind (approx_translateTarget h _) fun _ =>
      Approx.bind (approx_translateTarget h _) fun _ => Approx.refl _
  · exact Approx.bind (approx_translateTarget h _) fun _ => Approx.refl _

theorem approx_parseJalrEnd (h : ApproxAll tb tb') (s : ParseState) (instr : RiscInstr) :
    Approx Stop.outOfFuel (parseJalrEnd env tb s instr) (parseJalrEnd env tb' s instr) :=
  Approx.ite (Approx.bind (approx_translateTarget h _) fun _ =>
    Approx.bind (approx_translateTarget h _) fun _ => Approx.refl _) (Approx.refl _)

/-- The case of a `JALR` is monotone in the translator. -/
theorem approx_parseJalr (h : ApproxAll tb tb') (s : ParseState) (instr : RiscInstr) :
    Approx Stop.outOfFuel (parseJalr env tb s instr) (parseJalr env tb' s instr) :=
  Approx.ite (Approx.bind (approx_translateTarget h _) fun _ => approx_parseJalrEnd h s instr)
    (approx_parseJalrEnd h s instr)

/-- So is the whole `switch`. -/
theorem approx_parseSwitch (h : ApproxAll tb tb') (s : ParseState) (instr : RiscInstr) :
    Approx Stop.outOfFuel (parseSwitch env tb s instr) (parseSwitch env tb' s instr) := by
  unfold parseSwitch
  split
  · exact Approx.refl _
  · exact Approx.refl _
  · exact Approx.refl _
  · split
    · exact approx_parseJal h s instr
    · exact approx_parseJalr h s instr
    · exact Approx.refl _
  · exact Approx.refl _

/-- So is the loop, which is monotone in its own fuel too. -/
theorem approx_parseLoop (h : ApproxAll tb tb') (maxCount fuel : Nat) {fuel' : Nat}
    (hle : fuel ≤ fuel') (s : ParseState) :
    Approx Stop.outOfFuel (parseLoop env tb maxCount fuel s)
      (parseLoop env tb' maxCount fuel' s) := by
  induction fuel generalizing s fuel' with
  | zero => exact Approx.fail _
  | succ fuel ih =>
      obtain ⟨more, rfl⟩ : ∃ more, fuel' = more + 1 := ⟨fuel' - 1, by omega⟩
      unfold parseLoop
      refine Approx.ite ?_ (Approx.refl _)
      refine Approx.bind (Approx.bind (Approx.refl _) fun instr => approx_parseSwitch h s instr)
        fun step => ?_
      cases step with
      | next s' => exact ih (by omega) s'
      | done s' => exact Approx.refl _

/-- More fuel never changes a result that there is, by induction on the fuel. -/
theorem approx_translateBlock (fuel : Nat) {fuel' : Nat} (hle : fuel ≤ fuel') :
    ApproxAll (translateBlock env fuel) (translateBlock env fuel') := by
  induction fuel generalizing fuel' with
  | zero => exact fun a => Approx.fail _
  | succ fuel ih =>
      obtain ⟨more, rfl⟩ : ∃ more, fuel' = more + 1 := ⟨fuel' - 1, by omega⟩
      intro a
      refine Approx.bind (Approx.bind ?_ fun _ => Approx.refl _) fun _ => Approx.refl _
      exact approx_parseLoop (ih (by omega)) _ _ (by omega) _

end Approximation

/-! ## Runs of fences -/

/-- The words of the guest's code lie at the addresses in `M`, and whoever goes up by
words leaves them at some point. -/
structure FinitelyMapped (env : Env) (M : Finset RiscAddr) : Prop where
  mapped : ∀ a, env.mem a ≠ none → a ∈ M
  leaves : ∀ a, ∃ r, env.mem (a + BitVec.ofNat 64 (4 * r)) = none

/-- The words that a run of fences can cover at most. -/
def longestRun : Nat := 2 ^ 62

section Fences

variable {env : Env} {M : Finset RiscAddr}

/-- An instruction is fetched from a mapped word. -/
theorem fetched_mapped {a : RiscAddr} {instr : RiscInstr} (h : fetched env a = some instr) :
    env.mem a ≠ none := by
  intro hnone
  unfold fetched Parser.parseInstruction at h
  rw [show (RiscInstr.ofAddr a).addr = a from rfl, hnone] at h
  exact absurd h nofun

/-- From every address straight code soon reaches an unmapped word. -/
theorem FinitelyMapped.exists_end (h : FinitelyMapped env M) (a : RiscAddr) :
    ∃ r ≤ longestRun, env.mem (a + BitVec.ofNat 64 (4 * r)) = none := by
  obtain ⟨r, hr⟩ := h.leaves a
  refine ⟨r % longestRun, (Nat.mod_lt r (by decide)).le, ?_⟩
  have hwrap : BitVec.ofNat 64 (4 * (r % longestRun)) = BitVec.ofNat 64 (4 * r) := by
    refine BitVec.eq_of_toNat_eq ?_
    rw [BitVec.toNat_ofNat, BitVec.toNat_ofNat]
    unfold longestRun
    omega
  rwa [hwrap]

/-- Fewer words than the address space has are left in any direction. -/
theorem FinitelyMapped.of_card (hmapped : ∀ a, env.mem a ≠ none → a ∈ M)
    (hcard : M.card < longestRun) : FinitelyMapped env M := by
  refine ⟨hmapped, fun a => ?_⟩
  by_contra hall
  have hmem : ∀ r ∈ Finset.range longestRun, a + BitVec.ofNat 64 (4 * r) ∈ M :=
    fun r _ => hmapped _ fun hnone => hall ⟨r, hnone⟩
  have hinj : Set.InjOn (fun r => a + BitVec.ofNat 64 (4 * r)) (Finset.range longestRun) := by
    intro r hr r' hr' heq
    have hr := Finset.mem_range.1 hr
    have hr' := Finset.mem_range.1 hr'
    have hnat := congrArg BitVec.toNat (add_left_cancel heq)
    unfold longestRun at hr hr'
    rw [BitVec.toNat_ofNat, BitVec.toNat_ofNat, Nat.mod_eq_of_lt (by omega),
      Nat.mod_eq_of_lt (by omega)] at hnat
    omega
  have hle := Finset.card_le_card_of_injOn _ hmem hinj
  rw [Finset.card_range] at hle
  omega

end Fences

/-! ## Addresses that the cache does not know -/

/-- A state in which at most `n` mapped addresses are not in the cache. -/
def Room (M : Finset RiscAddr) (n : Nat) (t : TransState) : Prop :=
  ∃ f, Inv t.cache f ∧ InInstrMem t.currentPos ∧ (M.filter fun a => f a = none).card ≤ n

/-- A translation of blocks that has enough fuel in such states. -/
def Total (M : Finset RiscAddr) (n : Nat) (translateBlock : RiscAddr → Trans CacheLoc) : Prop :=
  ∀ a, Spec (Room M n) (translateBlock a) (fun loc t => Room M n t ∧ InInstrMem loc)
    (· ≠ .outOfFuel)

section Recursion

variable {env : Env} {M : Finset RiscAddr} {n : Nat} {tb : RiscAddr → Trans CacheLoc}

/-- The bound on what is left to translate may be raised. -/
theorem Room.mono {m : Nat} {t : TransState} (h : Room M m t) (hle : m ≤ n) : Room M n t := by
  obtain ⟨f, hcache, hpos, hcard⟩ := h
  exact ⟨f, hcache, hpos, hcard.trans hle⟩

/-- An entry that is set makes an address known. -/
theorem unknown_update_subset (f : RiscAddr → Option CacheLoc) (a : RiscAddr) (loc : CacheLoc) :
    (M.filter fun x => Function.update f a (some loc) x = none) ⊆
      (M.filter fun x => f x = none).erase a := by
  intro x hx
  obtain ⟨hxM, hx⟩ := Finset.mem_filter.1 hx
  by_cases hxa : x = a
  · subst hxa
    rw [Function.update_self] at hx
    exact absurd hx nofun
  · rw [Function.update_of_ne hxa] at hx
    exact Finset.mem_erase.2 ⟨hxa, Finset.mem_filter.2 ⟨hxM, hx⟩⟩

/-- A lookup leaves the bound, and an unseen address still counts. -/
theorem lookupCacheEntry_room (a : RiscAddr) :
    Spec (Room M n) (Trans.lookupCacheEntry a)
      (fun loc t => Room M n t ∧ (loc = unseenCode → a ∈ M →
        ∃ f, Inv t.cache f ∧ InInstrMem t.currentPos ∧
          a ∈ M.filter (fun x => f x = none) ∧ (M.filter fun x => f x = none).card ≤ n))
      (· ≠ .outOfFuel) := by
  rintro t ⟨f, hinv, hpos, hcard⟩
  obtain ⟨c', hlookup, hcache⟩ := hinv.lookupCacheEntry a
  unfold Trans.lookupCacheEntry
  rw [hlookup]
  refine ⟨fun loc t' h => ?_, fun e h => absurd h nofun⟩
  obtain ⟨rfl, rfl⟩ := Prod.mk.inj (Except.ok.inj h)
  refine ⟨⟨f, hcache, hpos, hcard⟩, fun hunseen hM => ⟨f, hcache, hpos, ?_, hcard⟩⟩
  refine Finset.mem_filter.2 ⟨hM, ?_⟩
  cases hfa : f a with
  | none => rfl
  | some loc =>
      rw [hfa] at hunseen
      exact absurd hunseen (hinv.table.ne_unseen hfa)

/-- Setting an entry does not raise the bound. -/
theorem setCacheEntry_room (a : RiscAddr) {loc : CacheLoc} (hloc : loc ≠ 0#64) :
    Spec (Room M n) (Trans.setCacheEntry a loc) (fun _ => Room M n) (· ≠ .outOfFuel) := by
  rintro t ⟨f, hinv, hpos, hcard⟩
  obtain ⟨c', hset, hcache⟩ := hinv.setCacheEntry a hloc
  unfold Trans.setCacheEntry
  rw [hset]
  refine ⟨fun _ t' h => ?_, fun e h => absurd h nofun⟩
  obtain ⟨-, rfl⟩ := Prod.mk.inj (Except.ok.inj h)
  refine ⟨_, hcache, hpos, ?_⟩
  exact (Finset.card_le_card ((unknown_update_subset f a loc).trans
    (Finset.erase_subset _ _))).trans hcard

/-- Marking a mapped address that the cache did not know makes room. -/
theorem setCacheEntry_mark (a : RiscAddr) :
    Spec (fun t => ∃ f, Inv t.cache f ∧ InInstrMem t.currentPos ∧
        a ∈ M.filter (fun x => f x = none) ∧ (M.filter fun x => f x = none).card ≤ n + 1)
      (Trans.setCacheEntry a translationStarted) (fun _ => Room M n) (· ≠ .outOfFuel) := by
  rintro t ⟨f, hinv, hpos, hmem, hcard⟩
  obtain ⟨c', hset, hcache⟩ := hinv.setCacheEntry a translationStarted_ne_unseen
  unfold Trans.setCacheEntry
  rw [hset]
  refine ⟨fun _ t' h => ?_, fun e h => absurd h nofun⟩
  obtain ⟨-, rfl⟩ := Prod.mk.inj (Except.ok.inj h)
  refine ⟨_, hcache, hpos, ?_⟩
  have hle := Finset.card_le_card (@unknown_update_subset M f a translationStarted)
  rw [Finset.card_erase_of_mem hmem] at hle
  omega

/-- A target is translated with one address less that the cache does not know, or its
translation ends the run. -/
theorem translateTarget_total (htb : ∀ m, m + 1 = n → Total M m tb)
    (hout : ∀ a, a ∉ M → ∀ P, Spec P (tb a) (fun _ _ => False) (· ≠ .outOfFuel))
    (target : RiscAddr) :
    Spec (Room M n) (translateTarget tb target) (fun _ => Room M n) (· ≠ .outOfFuel) := by
  refine Spec.bind (lookupCacheEntry_room target) fun loc => Spec.ite (fun hunseen => ?_)
    fun _ => Spec.ret fun _ h => h.1
  by_cases hM : target ∈ M
  · cases n with
    | zero =>
        rintro t ⟨-, hknown⟩
        obtain ⟨f, -, -, hmem, hcard⟩ := hknown hunseen hM
        exact absurd (Finset.card_pos.2 ⟨target, hmem⟩) (by omega)
    | succ m =>
        have hunseenTarget : Spec (fun t => ∃ f, Inv t.cache f ∧ InInstrMem t.currentPos ∧
            target ∈ M.filter (fun x => f x = none) ∧ (M.filter fun x => f x = none).card ≤ m + 1)
            (translateUnseen tb target) (fun _ => Room M m) (· ≠ .outOfFuel) := by
          refine Spec.bind (setCacheEntry_mark target) fun _ => ?_
          refine Spec.bind (htb m rfl target) fun loc' => ?_
          intro t hroom
          exact setCacheEntry_room target hroom.2.ne_unseen t hroom.1
        exact hunseenTarget.conseq (fun t h => h.2 hunseen hM) fun _ t h => h.mono (Nat.le_succ m)
  · have hmark := @setCacheEntry_room M n target _ translationStarted_ne_unseen
    refine Spec.bind (hmark.conseq (fun _ h => h.1) fun _ _ h => h) fun _ => ?_
    exact (hout target hM (Room M n)).bind fun _ _ h => h.elim

/-- The translation of an unmapped address ends the run. -/
theorem translateBlock_unmapped (hM : FinitelyMapped env M) (fuel : Nat) {a : RiscAddr}
    (ha : a ∉ M) (P : TransState → Prop) :
    Spec P (translateBlock env (fuel + 1) a) (fun _ _ => False) (· ≠ .outOfFuel) := by
  have hnone : env.mem a = none := by
    by_contra h
    exact ha (hM.mapped a h)
  have hparse : ∀ t, parseAt env a t = .error (.abort (.segfault a)) := by
    intro t
    unfold parseAt Parser.parseInstruction
    rw [show (RiscInstr.ofAddr a).addr = a from rfl, hnone]
  have hroom : (ParseState.init a).parsePos + 2 ≤ blockCacheSize env := by
    have := two_le_blockCacheSize env
    show 0 + 2 ≤ _
    omega
  -- the first fetch of the loop is at the unmapped address
  have hloop : ∀ t, parseLoop env (translateBlock env fuel) (blockCacheSize env) (fuel + 1)
      (.init a) t = .error (.abort (.segfault a)) := by
    intro t
    unfold parseLoop
    rw [if_pos hroom]
    show ((parseAt env a t).bind _).bind _ = _
    rw [hparse]
    rfl
  have hrun : ∀ t, translateBlock env (fuel + 1) a t = .error (.abort (.segfault a)) := by
    intro t
    show ((parseLoop _ _ _ _ _ t).bind _).bind _ = _
    rw [hloop]
    rfl
  intro t _
  rw [hrun]
  refine ⟨fun _ _ h => ?_, fun e h => ?_⟩
  · cases h
  rw [← Except.error.inj h]
  intro hstop
  cases hstop

/-- The iterations that are left: `j` entries of the buffer, and `r` words up to the end
of the mapped addresses. -/
theorem parseLoop_total (hM : FinitelyMapped env M) (maxCount : Nat)
    (htarget : ∀ target, Spec (Room M n) (translateTarget tb target) (fun _ => Room M n)
      (· ≠ .outOfFuel)) (fuel : Nat) (j r : Nat) (s : ParseState)
    (hj : maxCount ≤ s.parsePos + j) (hr : r ≤ longestRun)
    (hend : env.mem (s.riscAddr + BitVec.ofNat 64 (4 * r)) = none)
    (hfuel : j * (longestRun + 1) + r + 1 ≤ fuel) :
    Spec (Room M n) (parseLoop env tb maxCount fuel s) (fun _ => Room M n) (· ≠ .outOfFuel) := by
  induction fuel generalizing j r s with
  | zero => exact absurd hfuel (by omega)
  | succ fuel ih =>
      unfold parseLoop
      refine Spec.ite (fun hroom => ?_) fun _ => Spec.ret fun _ h => h
      obtain ⟨i, rfl⟩ : ∃ i, j = i + 1 := ⟨j - 1, by omega⟩
      rw [Nat.succ_mul] at hfuel
      have hstep : Spec (Room M n) (parseStep env tb s) (fun _ => Room M n) (· ≠ .outOfFuel) :=
        parseStep_spec s (parseAt_spec (fun _ h => by cases h) _) fun _ _ target _ => htarget target
      refine Spec.bind (parseStep_stepOf hstep) fun step => ?_
      refine Spec.of_fact ?_
      rintro ⟨instr, hfetch, hof⟩
      cases hof with
      | finish hnext => exact Spec.ret fun _ h => h
      | accept hnext hfence =>
          -- an entry is used up, and the mapped addresses end somewhere after the next one too
          rename_i b
          obtain ⟨r', hr', hend'⟩ := hM.exists_end b
          exact ih i r' (s.accept (rewritten instr) b)
            (by show maxCount ≤ s.parsePos + 1 + i; omega) hr' hend' (by omega)
      | skip hnext hfence =>
          -- a fence uses no entry, but a word of the mapped addresses
          cases r with
          | zero =>
              refine absurd ?_ (fetched_mapped hfetch)
              rwa [show s.riscAddr + BitVec.ofNat 64 (4 * 0) = s.riscAddr from
                BitVec.add_zero _] at hend
          | succ r =>
              refine ih (i + 1) r (s.skip instr) hj (by omega) ?_ (by rw [Nat.succ_mul]; omega)
              show env.mem (s.riscAddr + 4#64 + BitVec.ofNat 64 (4 * r)) = none
              rwa [BitVec.add_assoc, ← BitVec.ofNat_add, show 4 + 4 * r = 4 * (r + 1) by omega]

/-- Fuel for one call of `parse_block`. -/
def loopFuel (env : Env) : Nat :=
  blockCacheSize env * (longestRun + 1) + longestRun + 1

/-- Parsing a block does not run out of fuel, if translating its targets does not. -/
theorem parseBlock_total (hM : FinitelyMapped env M)
    (htarget : ∀ target, Spec (Room M n) (translateTarget tb target) (fun _ => Room M n)
      (· ≠ .outOfFuel)) {fuel : Nat} (hfuel : loopFuel env ≤ fuel) (a : RiscAddr) :
    Spec (Room M n) (parseBlock env tb (blockCacheSize env) fuel a) (fun _ => Room M n)
      (· ≠ .outOfFuel) := by
  obtain ⟨r, hr, hend⟩ := hM.exists_end a
  refine Spec.bind (parseLoop_total hM _ htarget fuel (blockCacheSize env) r (.init a)
    (Nat.le_add_left _ _) hr hend ?_) fun _ => Spec.ret fun _ h => h
  unfold loopFuel at hfuel
  omega

/-- Emitting a block changes nothing of what is left to translate. -/
theorem translateBlockInstructions_room (entries : List RiscInstr) :
    Spec (Room M n) (translateBlockInstructions env entries)
      (fun b t => Room M n t ∧ InInstrMem b.head) (· ≠ .outOfFuel) := by
  rintro t ⟨f, hinv, hpos, hcard⟩
  obtain ⟨hok, herr⟩ := translateBlockInstructions_spec env entries hinv hpos
  refine ⟨fun b t' h => ?_, herr⟩
  obtain ⟨hcache, hpos', -, hhead, -⟩ := hok b t' h
  refine ⟨⟨f, hcache, hpos', hcard⟩, ?_⟩
  rwa [hhead]

/-- A translation ends, if those of a smaller bound do: its own address is marked first. -/
theorem translateBlock_step (hM : FinitelyMapped env M) {fuel : Nat}
    (hfuel : loopFuel env ≤ fuel + 2)
    (htb : ∀ m, m + 1 = n → Total M m (translateBlock env (fuel + 1))) :
    Total M n (translateBlock env (fuel + 2)) := by
  have htarget := translateTarget_total htb fun a ha P => translateBlock_unmapped hM fuel ha P
  intro a
  refine Spec.bind (parseBlock_total hM htarget hfuel a) fun entries => ?_
  refine Spec.bind (translateBlockInstructions_room entries) fun b => ?_
  rintro t ⟨⟨f, hinv, hpos, hcard⟩, hhead⟩
  refine ⟨fun loc t' h => ?_, fun e h => absurd h nofun⟩
  obtain ⟨rfl, rfl⟩ := Prod.mk.inj (Except.ok.inj h)
  exact ⟨⟨f, hinv, hpos, hcard⟩, hhead⟩

/-- With as much fuel as there are unknown addresses a translation ends, by induction on these. -/
theorem translateBlock_total (hM : FinitelyMapped env M) (n fuel : Nat)
    (hfuel : n + loopFuel env + 1 ≤ fuel) : Total M n (translateBlock env fuel) := by
  induction n generalizing fuel with
  | zero =>
      obtain ⟨k, rfl⟩ : ∃ k, fuel = k + 2 := ⟨fuel - 2, by unfold loopFuel at hfuel; omega⟩
      exact translateBlock_step hM (by omega) (fun m hm => absurd hm (by omega))
  | succ n ih =>
      obtain ⟨k, rfl⟩ : ∃ k, fuel = k + 2 := ⟨fuel - 2, by unfold loopFuel at hfuel; omega⟩
      refine translateBlock_step hM (by omega) fun m hm => ?_
      obtain rfl : m = n := by omega
      exact ih (k + 1) (by omega)

end Recursion

/-! ## An address is translated once after it has been marked -/

/-- What has been translated since the cache knew `f₀`: every address once, none of them
known before, all of them known to the cache now. -/
structure Fresh (f₀ f : RiscAddr → Option CacheLoc) (visited : List (RiscAddr × Block)) :
    Prop where
  nodup : (visited.map Prod.fst).Nodup
  unknown : ∀ a ∈ visited.map Prod.fst, f₀ a = none
  known : ∀ a ∈ visited.map Prod.fst, f a ≠ none
  kept : ∀ a, f₀ a ≠ none → f a ≠ none

/-- The cache maps as `f`, and `blocks` have been translated. -/
structure CacheAt (f : RiscAddr → Option CacheLoc) (blocks : List (RiscAddr × Block))
    (t : TransState) : Prop where
  cache : Inv t.cache f
  pos : InInstrMem t.currentPos
  blocks : t.blocks = blocks

/-- The translations since the cache knew `f₀` and the blocks were `base` are fresh. -/
def Visits (f₀ : RiscAddr → Option CacheLoc) (base : List (RiscAddr × Block))
    (t : TransState) : Prop :=
  ∃ f visited, Fresh f₀ f visited ∧ CacheAt f (visited ++ base) t

/-- A translation of a block, after the translations that it needs. -/
def VisitsThen (f₀ : RiscAddr → Option CacheLoc) (base : List (RiscAddr × Block))
    (a : RiscAddr) (t : TransState) : Prop :=
  ∃ f visited b, Fresh f₀ f visited ∧ CacheAt f ((a, b) :: visited ++ base) t

/-- A translation of blocks that visits addresses once. -/
def VisitsOnce (translateBlock : RiscAddr → Trans CacheLoc) : Prop :=
  ∀ f₀ base a, Spec (CacheAt f₀ base) (translateBlock a)
    (fun loc t => InInstrMem loc ∧ VisitsThen f₀ base a t) fun _ => True

section Visits

variable {env : Env} {tb : RiscAddr → Trans CacheLoc} {f₀ f : RiscAddr → Option CacheLoc}
  {base : List (RiscAddr × Block)}

theorem Fresh.refl : Fresh f₀ f₀ [] :=
  ⟨List.nodup_nil, fun _ h => absurd h List.not_mem_nil, fun _ h => absurd h List.not_mem_nil,
    fun _ h => h⟩

/-- Setting an entry makes no known address unknown. -/
theorem known_update {x a : RiscAddr} (loc : CacheLoc) (h : f x ≠ none) :
    Function.update f a (some loc) x ≠ none := by
  by_cases hxa : x = a
  · rw [hxa, Function.update_self]
    exact nofun
  · rwa [Function.update_of_ne hxa]

/-- A target that the cache did not know, after what its translation has visited. -/
theorem Fresh.snoc {f' : RiscAddr → Option CacheLoc} {visited new : List (RiscAddr × Block)}
    {target : RiscAddr} {b : Block} (h : Fresh f₀ f visited) (htarget : f target = none)
    (mark loc : CacheLoc) (hnew : Fresh (Function.update f target (some mark)) f' new) :
    Fresh f₀ (Function.update f' target (some loc)) ((target, b) :: new ++ visited) := by
  have hknown : ∀ x, f x ≠ none → f' x ≠ none := fun x hx => hnew.kept x (known_update mark hx)
  have hfresh : ∀ x ∈ new.map Prod.fst, f x = none ∧ x ≠ target := by
    intro x hx
    have hnone := hnew.unknown x hx
    by_cases hxa : x = target
    · rw [hxa, Function.update_self] at hnone
      exact absurd hnone nofun
    · rw [Function.update_of_ne hxa] at hnone
      exact ⟨hnone, hxa⟩
  have hunknown : ∀ x, f x = none → f₀ x = none := by
    intro x hx
    by_contra hne
    exact h.kept x hne hx
  -- `target` was unknown before its mark, so it is among neither the old nor the new addresses
  constructor
  · rw [List.map_append, List.map_cons, List.cons_append, List.nodup_cons, List.mem_append,
      List.nodup_append']
    refine ⟨?_, hnew.nodup, h.nodup, ?_⟩
    · rintro (hmem | hmem)
      · exact (hfresh target hmem).2 rfl
      · exact h.known target hmem htarget
    · intro x hx hx'
      exact h.known x hx' (hfresh x hx).1
  · intro x hx
    rw [List.map_append, List.map_cons, List.cons_append, List.mem_cons, List.mem_append] at hx
    rcases hx with rfl | hx | hx
    · exact hunknown _ htarget
    · exact hunknown x (hfresh x hx).1
    · exact h.unknown x hx
  · intro x hx
    rw [List.map_append, List.map_cons, List.cons_append, List.mem_cons, List.mem_append] at hx
    rcases hx with rfl | hx | hx
    · rw [Function.update_self]
      exact nofun
    · exact known_update loc (hnew.known x hx)
    · exact known_update loc (hknown x (h.known x hx))
  · intro x hx
    exact known_update loc (hknown x (h.kept x hx))

/-- Setting an entry sets it in the table's meaning. -/
theorem setCacheEntry_at {blocks : List (RiscAddr × Block)} (a : RiscAddr) {loc : CacheLoc}
    (hloc : loc ≠ unseenCode) :
    Spec (CacheAt f blocks) (Trans.setCacheEntry a loc)
      (fun _ => CacheAt (Function.update f a (some loc)) blocks) fun _ => True := by
  intro t hat
  obtain ⟨c', hset, hcache⟩ := hat.cache.setCacheEntry a hloc
  unfold Trans.setCacheEntry
  rw [hset]
  refine ⟨fun _ t' h => ?_, fun _ _ => trivial⟩
  obtain ⟨-, rfl⟩ := Prod.mk.inj (Except.ok.inj h)
  exact ⟨hcache, hat.pos, hat.blocks⟩

/-- A lookup answers with the table's meaning and changes none of it. -/
theorem lookupCacheEntry_at {blocks : List (RiscAddr × Block)} (a : RiscAddr) :
    Spec (CacheAt f blocks) (Trans.lookupCacheEntry a)
      (fun loc t => CacheAt f blocks t ∧ (loc = unseenCode → f a = none)) fun _ => True := by
  intro t hat
  obtain ⟨c', hlookup, hcache⟩ := hat.cache.lookupCacheEntry a
  unfold Trans.lookupCacheEntry
  rw [hlookup]
  refine ⟨fun loc t' h => ?_, fun _ _ => trivial⟩
  obtain ⟨rfl, rfl⟩ := Prod.mk.inj (Except.ok.inj h)
  refine ⟨⟨hcache, hat.pos, hat.blocks⟩, fun hunseen => ?_⟩
  cases hfa : f a with
  | none => rfl
  | some loc =>
      rw [hfa] at hunseen
      exact absurd hunseen (hat.cache.table.ne_unseen hfa)

/-- An unseen target is visited for the first time. -/
theorem translateUnseen_visits (htb : VisitsOnce tb) {visited : List (RiscAddr × Block)}
    (hfresh : Fresh f₀ f visited) {target : RiscAddr} (htarget : f target = none) :
    Spec (CacheAt f (visited ++ base)) (translateUnseen tb target) (fun _ => Visits f₀ base)
      fun _ => True := by
  refine Spec.bind (setCacheEntry_at target translationStarted_ne_unseen) fun _ => ?_
  refine Spec.bind (htb _ _ target) fun loc => ?_
  rintro t ⟨hloc, f', new, b, hnew, hat⟩
  refine (setCacheEntry_at target hloc.ne_unseen).conseq (fun _ h => h) (fun _ t' hat' => ?_) t hat
  refine ⟨_, (target, b) :: new ++ visited, hfresh.snoc htarget translationStarted loc hnew,
    hat'.cache, hat'.pos, ?_⟩
  rw [hat'.blocks, List.append_assoc]

/-- A target is visited, or was known. -/
theorem translateTarget_visits (htb : VisitsOnce tb) (target : RiscAddr) :
    Spec (Visits f₀ base) (translateTarget tb target) (fun _ => Visits f₀ base)
      fun _ => True := by
  rintro t ⟨f, visited, hfresh, hat⟩
  refine Spec.bind (lookupCacheEntry_at target) (fun loc => ?_) t hat
  refine Spec.ite (fun hunseen => ?_) fun _ => Spec.ret fun t h => ⟨f, visited, hfresh, h.1⟩
  rintro t ⟨hat, hnone⟩
  exact translateUnseen_visits htb hfresh (hnone hunseen) t hat

/-- All targets of a loop are visited once. -/
theorem parseLoop_visits (htb : VisitsOnce tb) (maxCount fuel : Nat) (s : ParseState) :
    Spec (Visits f₀ base) (parseLoop env tb maxCount fuel s) (fun _ => Visits f₀ base)
      fun _ => True := by
  induction fuel generalizing s with
  | zero => exact Spec.fail trivial
  | succ fuel ih =>
      unfold parseLoop
      refine Spec.ite (fun _ => ?_) fun _ => Spec.ret fun _ h => h
      refine Spec.bind (parseStep_spec s (parseAt_spec (fun _ => trivial) _)
        fun _ _ target _ => translateTarget_visits htb target) fun step => ?_
      cases step with
      | next s' => exact ih s'
      | done s' => exact Spec.ret fun _ h => h

/-- A translation visits addresses that were unknown, each once, by induction on the fuel. -/
theorem translateBlock_visits (fuel : Nat) : VisitsOnce (translateBlock env fuel) := by
  induction fuel with
  | zero => exact fun f₀ base a => Spec.fail trivial
  | succ fuel ih =>
      intro f₀ base a
      have hparse : Spec (CacheAt f₀ base)
          (parseBlock env (translateBlock env fuel) (blockCacheSize env) (fuel + 1) a)
          (fun _ => Visits f₀ base) fun _ => True := by
        refine Spec.bind ((parseLoop_visits ih _ _ _).conseq (fun t hat => ?_) fun _ _ h => h)
          fun _ => Spec.ret fun _ h => h
        exact ⟨f₀, [], Fresh.refl, hat⟩
      refine Spec.bind hparse fun entries => ?_
      rintro t ⟨f, visited, hfresh, hat⟩
      refine ⟨fun loc t' h => ?_, fun _ _ => trivial⟩
      obtain ⟨b, t₁, hemit, hrest⟩ := bind_ok h
      obtain ⟨hcache, hpos, hblocks, hhead, -⟩ :=
        (translateBlockInstructions_spec env entries hat.cache hat.pos).1 b t₁ hemit
      obtain ⟨u, t₂, hrecord, hret⟩ := bind_ok hrest
      obtain ⟨-, rfl⟩ := Prod.mk.inj (Except.ok.inj hrecord)
      obtain ⟨rfl, rfl⟩ := pure_ok hret
      refine ⟨?_, f, visited, b, hfresh, hcache, hpos, ?_⟩
      · rw [hhead]
        exact hat.pos
      · show (a, b) :: t₁.blocks = _
        rw [hblocks, hat.blocks]
        rfl

end Visits

/-- `translate_block` returns or ends the run, whatever it is called for and whatever the
cache holds. Where it returns, the recursion has translated every address at most once,
and none that the cache knew. -/
theorem translateBlock_terminates (env : Env) (M : Finset RiscAddr) (hM : FinitelyMapped env M)
    (a : RiscAddr) (t : TransState) (f : RiscAddr → Option CacheLoc) (hcache : Inv t.cache f)
    (hpos : InInstrMem t.currentPos) :
    ∃ r, r ≠ .error .outOfFuel ∧ (∃ N, ∀ fuel, N ≤ fuel → translateBlock env fuel a t = r) ∧
      ∀ loc t', r = .ok (loc, t') →
        ∃ b visited, t'.blocks = (a, b) :: visited ++ t.blocks ∧
          (visited.map Prod.fst).Nodup ∧ ∀ x ∈ visited.map Prod.fst, f x = none := by
  have hroom : Room M M.card t := ⟨f, hcache, hpos, Finset.card_filter_le _ _⟩
  have htotal := translateBlock_total hM M.card (M.card + loopFuel env + 1) le_rfl a t hroom
  have hr : translateBlock env (M.card + loopFuel env + 1) a t ≠ .error .outOfFuel :=
    fun h => htotal.2 .outOfFuel h rfl
  refine ⟨_, hr, ⟨M.card + loopFuel env + 1, fun fuel hfuel => ?_⟩, fun loc t' h => ?_⟩
  · exact (approx_translateBlock _ hfuel a t).resolve_left hr
  · obtain ⟨-, f', visited, b, hfresh, hat⟩ :=
      (translateBlock_visits _ f t.blocks a t ⟨hcache, hpos, rfl⟩).1 loc t' h
    exact ⟨b, visited, hat.blocks, hfresh.nodup, hfresh.unknown⟩

/-- A program of a few words is finitely mapped. -/
theorem finitelyMapped_ofWords (flags : Flags) (base : RiscAddr) (words : List (BitVec 32))
    (hlen : words.length < longestRun) :
    FinitelyMapped (Env.plain flags (CodeMem.ofWords base words))
      ((Finset.range words.length).image fun i => base + BitVec.ofNat 64 (4 * i)) := by
  refine FinitelyMapped.of_card (fun a ha => ?_) ?_
  · have hword : CodeMem.ofWords base words a ≠ none := ha
    unfold CodeMem.ofWords at hword
    split at hword
    · rename_i hmul
      obtain ⟨w, hw⟩ := Option.ne_none_iff_exists'.1 hword
      obtain ⟨hlt, -⟩ := List.getElem?_eq_some_iff.1 hw
      refine Finset.mem_image.2 ⟨_, Finset.mem_range.2 hlt, ?_⟩
      rw [show 4 * ((a - base).toNat / 4) = (a - base).toNat by omega, BitVec.ofNat_toNat,
        BitVec.setWidth_eq, BitVec.add_comm, BitVec.sub_add_cancel]
    · exact absurd rfl hword
  · exact Finset.card_image_le.trans_lt (by rwa [Finset.card_range])

/-- Two calls of each other, with a fence between them, and a system call. -/
def jumpCycle : List (BitVec 32) := [0x008000ef#32, 0x0ff0000f#32, 0xff9ff0ef#32, 0x00000073#32]

theorem translateBlock_terminates_jumpCycle :
    ∃ r, r ≠ .error .outOfFuel ∧ ∃ N, ∀ fuel, N ≤ fuel →
      translateBlock (Env.plain {} (CodeMem.ofWords 0x1000#64 jumpCycle)) fuel 0x1000#64
        (.initial (BitVec.ofNat 64 instrMemBase)) = r := by
  obtain ⟨r, hr, hfuel, -⟩ := translateBlock_terminates _ _
    (finitelyMapped_ofWords {} 0x1000#64 jumpCycle (by decide)) 0x1000#64
    (.initial (BitVec.ofNat 64 instrMemBase)) (fun _ => none) inv_initHashTable inInstrMem_base
  exact ⟨r, hr, hfuel⟩

end RiaJit.Translate
