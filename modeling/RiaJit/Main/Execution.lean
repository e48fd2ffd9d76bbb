import RiaJit.Gen.TranscodeLoop
import RiaJit.Main.Dispatcher

/-!
# Runs of the dispatcher simulate the guest

Whenever a run of `transcode_loop` is at the head of its loop, the register file and the
memory are those of the guest, at the address of the next block, in a configuration that the
guest reaches on its own. In between, the run does not get stuck and comes back to the loop
or to the start of a block.
-/

set_option autoImplicit false

namespace RiaJit.Translate

open EmitLogic X86 StateExcept Checkpoints

/-! ## Blocks in the instruction memory -/

/-- Every block that is not garbled is held, up to jumps over its stubs to finished code. -/
def Held (env : Env) (finished : RiscAddr → CacheLoc → Prop) (blocks : List (RiscAddr × Block))
    (code : CodeAt) : Prop :=
  ∀ a b last, (a, b) ∈ blocks → b.garbled = false → b.last = some last →
    HoldsLinked env.enc code (fun cond loc => finished (exitTarget last cond) loc) b.head b.code

/-- The blocks lie apart, in the address space. -/
structure Spread (env : Env) (blocks : List (RiscAddr × Block)) : Prop where
  fits : ∀ p ∈ blocks, p.2.finish env < 2 ^ 64
  apart : ∀ p ∈ blocks, ∀ q ∈ blocks, p ≠ q → Block.Apart env p.2 q.2

section Memory

variable {env : Env} {ext : Extension} {finished finished' : RiscAddr → CacheLoc → Prop}
  {blocks new : List (RiscAddr × Block)} {code : CodeAt} {a : RiscAddr} {b : Block}
  {p : RiscAddr × Block} {t : TransState}

theorem Spread.tail (h : Spread env (p :: blocks)) : Spread env blocks :=
  ⟨fun q hq => h.fits q (List.mem_cons_of_mem _ hq), fun q hq r hr =>
    h.apart q (List.mem_cons_of_mem _ hq) r (List.mem_cons_of_mem _ hr)⟩

theorem Held.mono (h : Held env finished blocks code)
    (hle : ∀ a loc, finished a loc → finished' a loc) : Held env finished' blocks code :=
  fun a b last hmem hgarbled hlast => allAt_mono (h a b last hmem hgarbled hlast) fun _ _ _ h =>
    h.imp_right fun ⟨cond, loc, hstub, hexit, hjump⟩ =>
      ⟨cond, loc, hstub, hle _ _ hexit, hjump⟩

/-- A block that is written is held, and the others are kept. -/
theorem Held.place (h : Held env finished blocks code) (hspread : Spread env (p :: blocks)) :
    Held env finished (p :: blocks) (placeBlock env p.2 code) := by
  intro x b last hmem hgarbled hlast
  have hfits := hspread.fits (x, b) hmem
  by_cases heq : (x, b) = p
  · subst heq
    unfold placeBlock
    rw [hgarbled]
    exact holdsLinked_fresh hfits
  · have hold := (List.mem_cons.1 hmem).resolve_left heq
    have hapart := hspread.apart (x, b) hmem p List.mem_cons_self heq
    exact (h x b last hold hgarbled hlast).apart hfits hapart

theorem Held.placeAll (h : Held env finished blocks code) (hspread : Spread env (new ++ blocks)) :
    Held env finished (new ++ blocks) ((new.map Prod.snd).foldr (placeBlock env) code) := by
  induction new with
  | nil => exact h
  | cons p new ih => exact (ih hspread.tail).place hspread

/-- A jump over a stub to finished code of its exit leaves all blocks held. -/
theorem Held.link {last : RiscInstr} {stub loc : BitVec 64} {cond : Option Cond}
    (h : Held env finished blocks code) (hspread : Spread env blocks) (hmem : (a, b) ∈ blocks)
    (hlast : b.last = some last) (hstub : StubIn env.enc b.head b.code stub cond)
    (hexit : finished (exitTarget last cond) loc) :
    Held env finished blocks (env.enc.write stub (.jump cond true loc) code) := by
  obtain ⟨pre, i, post, hcode, rfl, hi⟩ := hstub
  intro x b' last' hmem' hgarbled' hlast'
  have hheld := h x b' last' hmem' hgarbled' hlast'
  have hfits := hspread.fits (x, b') hmem'
  by_cases heq : (x, b') = (a, b)
  · obtain ⟨rfl, rfl⟩ := Prod.mk.inj heq
    obtain rfl := Option.some.inj (hlast.symm.trans hlast')
    unfold Block.finish at hfits
    rw [hcode] at hheld hfits ⊢
    exact hheld.link hfits hi hexit
  · -- the jump lies within its own block
    have hsize := size_stub env.enc loc hi
    have hfinish : b.finish env = b.head.toNat + (env.enc.codeSize pre +
        (env.enc.size i + env.enc.codeSize post)) := by
      unfold Block.finish
      rw [hcode, Encoder.codeSize_append, Encoder.codeSize_cons]
    have hfits' : b.finish env < 2 ^ 64 := hspread.fits (a, b) hmem
    have hat : (env.enc.after b.head pre).toNat = b.head.toNat + env.enc.codeSize pre :=
      toNat_after (by omega)
    have hapart : Block.Apart env b' b := hspread.apart (x, b') hmem' (a, b) hmem heq
    refine hheld.apart hfits ?_
    rw [hat]
    rcases hapart with hbefore | hbehind
    · exact .inl (hbefore.trans (Nat.le_add_right _ _))
    · exact .inr (by omega)

/-- The layout spreads the blocks. -/
theorem LaidOut.spread {base : List (RiscAddr × Block)} (h : LaidOut env ext base t)
    (hunmarked : Unmarked env t) : Spread env t.blocks := by
  obtain ⟨f, hinv⟩ := hunmarked
  refine ⟨fun p hp => ?_, h.apart⟩
  have hbelow := h.below p.1 p.2 hp
  have hpos := hinv.pos.2
  have hbase : translatorBase < 2 ^ 64 := by decide
  omega

/-- A lookup of the dispatcher adds blocks in front of those that exist. -/
theorem transcode_visits (fuel : Nat) (a : RiscAddr) (blocks : List (RiscAddr × Block)) :
    Spec (fun t => Unmarked env t ∧ t.blocks = blocks) (transcode env fuel a)
      (fun _ t => ∃ new, t.blocks = new ++ blocks) fun _ => True := by
  rintro t ⟨⟨f, hinv⟩, hblocks⟩
  have hlookup : Spec (CacheAt f blocks) (Trans.lookupCacheEntry a) _ _ := lookupCacheEntry_at a
  have hnext : Spec (CacheAt f blocks) (translateNext env fuel a)
      (fun _ t => ∃ new, t.blocks = new ++ blocks) fun _ => True := by
    refine ((translateBlock_visits fuel : VisitsOnce (translateBlock env fuel)) f blocks a).bind
      fun loc => ?_
    rintro t ⟨hloc, f', visited, b, -, hat⟩
    refine (Spec.bind (setCacheEntry_at (f := f') a hloc.ne_unseen) fun _ =>
      Spec.ret fun t hat => ?_) t hat
    exact ⟨(a, b) :: visited, hat.blocks⟩
  refine (hlookup.bind fun loc => Spec.ite (fun _ => ?_) fun _ => Spec.ret fun t h => ?_) t
    ⟨hinv.cache, hinv.pos, hblocks⟩
  · exact hnext.conseq (fun _ h => h.1) fun _ _ h => h
  · exact ⟨[], h.1.blocks⟩

/-- With enough fuel a lookup of the dispatcher returns or ends the run. -/
theorem transcode_total {M : Finset RiscAddr} (hM : FinitelyMapped env M)
    (hunmarked : Unmarked env t) (a : RiscAddr) :
    ∃ fuel, (∃ loc t', transcode env fuel a t = .ok (loc, t')) ∨
      ∃ reason, transcode env fuel a t = .error (.abort reason) := by
  obtain ⟨f, hinv⟩ := hunmarked
  have hroom : Room M M.card t := ⟨f, hinv.cache, hinv.pos, Finset.card_filter_le _ _⟩
  -- setting the entry of the finished block may grow the table, but returns
  have hset : ∀ loc, InInstrMem loc → Spec (Room M M.card) (Trans.setCacheEntry a loc)
      (fun _ _ => True) (· ≠ .outOfFuel) := by
    rintro loc hloc t' ⟨f', hcache, -⟩
    obtain ⟨c', hset, -⟩ := hcache.setCacheEntry a hloc.ne_unseen
    unfold Trans.setCacheEntry
    rw [hset]
    exact ⟨fun _ _ _ => trivial, fun e h => by cases h⟩
  have hnext : Spec (Room M M.card) (translateNext env (M.card + loopFuel env + 1) a)
      (fun _ _ => True) (· ≠ .outOfFuel) := by
    refine (translateBlock_total hM M.card _ le_rfl a).bind fun loc => ?_
    rintro t' ⟨hroom', hloc⟩
    exact (Spec.bind (hset loc hloc) fun _ => Spec.ret fun _ _ => trivial) t' hroom'
  have hlookup : Spec (Room M M.card) (Trans.lookupCacheEntry a) (fun _ => Room M M.card)
      (· ≠ .outOfFuel) := by
    rintro t' ⟨f', hcache, hpos, hcard⟩
    obtain ⟨c', hlook, hcache'⟩ := hcache.lookupCacheEntry a
    unfold Trans.lookupCacheEntry
    rw [hlook]
    refine ⟨fun loc t'' h => ?_, fun e h => by cases h⟩
    obtain ⟨-, rfl⟩ := Prod.mk.inj (Except.ok.inj h)
    exact ⟨f', hcache', hpos, hcard⟩
  have htotal : Spec (Room M M.card) (transcode env (M.card + loopFuel env + 1) a)
      (fun _ _ => True) (· ≠ .outOfFuel) :=
    hlookup.bind fun loc => Spec.ite (fun _ => hnext) fun _ => Spec.ret fun _ _ => trivial
  refine ⟨M.card + loopFuel env + 1, ?_⟩
  cases hrun : transcode env (M.card + loopFuel env + 1) a t with
  | ok r => exact .inl ⟨r.1, r.2, rfl⟩
  | error e =>
      cases e with
      | abort reason => exact .inr ⟨reason, rfl⟩
      | outOfFuel => exact absurd rfl ((htotal t hroom).2 _ hrun)

end Memory

/-! ## What holds between two blocks -/

/-- The translated code: no address is marked, the blocks are laid out and held. -/
structure CodeInv (env : Env) (ext : Extension) (c : Globals) : Prop where
  unmarked : Unmarked env c.trans
  laidOut : LaidOut env ext [] c.trans
  held : Held env (Finished c.trans.blocks) c.trans.blocks c.code

/-- Where blocks are chained, `chain_end` is zero or the stub of an exit to the address. -/
def NotedIn (env : Env) (blocks : List (RiscAddr × Block)) (target : RiscAddr) (h : HostState) :
    Prop :=
  env.flags.translateOptChain = true → h.cell .chainEnd = 0#64 ∨
    ∃ a b last cond, (a, b) ∈ blocks ∧ b.last = some last ∧
      StubIn env.enc b.head b.code (h.cell .chainEnd) cond ∧ exitTarget last cond = target ∧
      (h.cell .chainType).setWidth 32 = (env.enc.jumpMnem cond).setWidth 32

/-- C code finds the stack and the registers that a function keeps as it has left them. -/
structure CallerKept (c : Globals) (h : HostState) : Prop where
  reg : ∀ R ∈ calleeSaved, h.reg R = c.caller.reg R
  sp : h.reg .sp = c.caller.reg .sp
  stack : h.stack = c.caller.stack

section Invariants

variable (env : Env) (ext : Extension) (sys : Syscalls) (resume : BitVec 64)
  (R H E : GuestConfig → Prop)

/-- At the head of the loop the state of a guest in `R` is in the register file. -/
structure AtHead (h : HostState) (c : Globals) : Prop where
  code : CodeInv env ext c
  guest : ∃ g, R ⟨⟨g, c.nextPc⟩, c.finalize⟩ ∧ InFile g h
  noted : NotedIn env c.trans.blocks c.nextPc h
  caller : CallerKept c h

/-- The frame of `load_execute_save_context` around a block. -/
structure Framed (h : HostState) (c : Globals) : Prop where
  swapped : Swapped c.caller.reg h
  sp : h.reg .sp = c.caller.reg .sp
  stack : h.stack = resume :: c.caller.stack

/-- At the start of a block the state of a guest in `R` is in the mapped registers. -/
structure AtEntry (rip : BitVec 64) (h : HostState) (c : Globals) : Prop where
  code : CodeInv env ext c
  running : c.finalize = false
  guest : ∃ g a, R ⟨⟨g, a⟩, false⟩ ∧ Finished c.trans.blocks a rip ∧ AtBoundary g h
  linked : env.flags.translateOptChain = true → h.cell .chainEnd = 0#64
  frame : Framed resume h c

/-- The states that every run comes back to, with a guest in `H` at the head of the loop and in
`E` at the start of a block. -/
inductive Checkpoint : RunState → Prop
  | head {h : HostState} {c : Globals} : AtHead env ext H h c → Checkpoint ⟨.head, h, c⟩
  | entry {rip : BitVec 64} {h : HostState} {c : Globals} : AtEntry env ext resume E rip h c →
      Checkpoint ⟨.running rip, h, c⟩
  | done {h : HostState} {c : Globals} {g : GuestState} {a : RiscAddr} :
      (c.finalize = true ∨ env.flags.ndebug = false ∧ h.cell (.gp x0) ≠ 0#64) →
      H ⟨⟨g, a⟩, c.finalize⟩ ∨ E ⟨⟨g, a⟩, c.finalize⟩ → InFile g h → CallerKept c h →
      Checkpoint ⟨.done, h, c⟩
  | aborted {h : HostState} {c : Globals} : Checkpoint ⟨.aborted, h, c⟩

/-- The states between checkpoints. -/
def Inside (s : RunState) : Prop :=
  match s.phase with
  | .translated _ | .chained _ | .running _ => True
  | .head | .done | .aborted => False

/-- Every run from the state comes back to a checkpoint. -/
abbrev ComesBack : RunState → Prop :=
  Returns (RunStep env sys resume) Inside (Checkpoint env ext resume H E)

/-- The same, after at least one step. -/
abbrev GoesOn : RunState → Prop :=
  Departs (RunStep env sys resume) Inside (Checkpoint env ext resume H E)

end Invariants

/-! ## From the loop to a block -/

section Dispatch

variable {env : Env} {ext : Extension} {sys : Syscalls} {resume : BitVec 64}
  {R H E : GuestConfig → Prop} {h h' : HostState} {c : Globals} {loc : CacheLoc} {target : RiscAddr}

/-- The translation of the next block. -/
theorem CodeInv.translate (hs : Supported env ext) (hcode : CodeInv env ext c) {fuel : Nat}
    {t : TransState} (h : transcode env fuel target c.trans = .ok (loc, t)) :
    CodeInv env ext { c with trans := t, code := placeNew env c.trans t c.code } ∧
      Finished t.blocks target loc ∧ c.trans.blocks ⊆ t.blocks := by
  obtain ⟨⟨hunmarked, hlaid⟩, hfin⟩ := (transcode_layout hs fuel target c.trans
    ⟨hcode.unmarked, hcode.laidOut.rebase (List.Subset.refl _)⟩).1 loc t h
  obtain ⟨new, hnew⟩ := (transcode_visits fuel target c.trans.blocks c.trans
    ⟨hcode.unmarked, rfl⟩).1 loc t h
  refine ⟨⟨hunmarked, hlaid.rebase (List.nil_subset _), ?_⟩, hfin, hlaid.grown⟩
  have hspread := hlaid.spread hunmarked
  have hold : Held env (Finished t.blocks) c.trans.blocks c.code :=
    hcode.held.mono fun _ _ hf => hf.mono hlaid.grown
  -- the new blocks are the ones that are written over the old code memory
  have htake : t.blocks.take (t.blocks.length - c.trans.blocks.length) = new := by
    rw [hnew, List.length_append, Nat.add_sub_cancel, List.take_left]
  show Held env (Finished t.blocks) t.blocks (placeNew env c.trans t c.code)
  unfold placeNew
  rw [htake]
  rw [hnew] at hspread
  have hheld := hold.placeAll hspread
  rwa [← hnew] at hheld

theorem jumpMnem_low {enc : Encoder} {cond cond' : Option Cond}
    (h : (enc.jumpMnem cond).setWidth 32 = (enc.jumpMnem cond').setWidth 32) : cond = cond' := by
  have hfits : ∀ cond, ((enc.jumpMnem cond).setWidth 32).signExtend 64 = enc.jumpMnem cond :=
    fun cond => beq_iff_eq.1 (enc.jumpMnem_fits cond)
  refine enc.jumpMnem_injective ?_
  rw [← hfits cond, ← hfits cond', h]

/-- `chain` links the exit that was noted to the next block. -/
theorem CodeInv.chain (hcode : CodeInv env ext c) (hnoted : NotedIn env c.trans.blocks target h)
    (hfin : Finished c.trans.blocks target loc) {code : CodeAt}
    (hchain : Translate.chain env loc h c.code = some (h', code)) :
    CodeInv env ext { c with code := code } ∧
      (env.flags.translateOptChain = true → h'.cell .chainEnd = 0#64) ∧
      (∀ c, c ≠ .chainEnd → h'.cell c = h.cell c) ∧ h'.mem = h.mem := by
  unfold Translate.chain at hchain
  split at hchain
  · rename_i hcond
    obtain ⟨hflag, hend⟩ := hcond
    obtain ⟨cond', hfind, hrest⟩ := Option.bind_eq_some_iff.1 hchain
    obtain ⟨jump, hform, hresult⟩ := Option.bind_eq_some_iff.1 hrest
    obtain ⟨rfl, rfl⟩ := Prod.mk.inj (Option.some.inj hresult)
    -- the jump that is written has the stub's length, and the mnemonic that was noted is its own
    obtain ⟨long, rfl, hlong⟩ := jumpForm_long hform
    obtain rfl := hlong rfl
    obtain ⟨a, b, last, cond, hmem, hlast, hstub, htarget, htype⟩ :=
      (hnoted hflag).resolve_left hend
    have hfound := List.find?_some hfind
    obtain rfl : cond' = cond := jumpMnem_low ((eq_of_beq hfound).trans htype)
    have hheld := hcode.held.link (hcode.laidOut.spread hcode.unmarked) hmem hlast hstub
      (htarget ▸ hfin)
    exact ⟨⟨hcode.unmarked, hcode.laidOut, hheld⟩, fun _ => h.cell_setCell_self _ _,
      fun _ hc => h.cell_setCell_of_ne hc _, rfl⟩
  · -- nothing was noted, or blocks are not chained
    rename_i hcond
    obtain ⟨rfl, rfl⟩ := Prod.mk.inj (Option.some.inj hchain)
    refine ⟨hcode, fun hflag => ?_, fun _ _ => rfl, rfl⟩
    exact not_not.1 fun hend => hcond ⟨hflag, hend⟩

theorem InFile.congr {g : GuestState} (hfile : InFile g h)
    (hcell : ∀ y, h'.cell (.gp y) = h.cell (.gp y)) (hmem : h'.mem = h.mem) : InFile g h' :=
  ⟨fun y hy hlt => (hcell y).trans (hfile.regs y hy hlt), hmem.trans hfile.mem⟩

/-- `load_execute_save_context` calls the block. -/
theorem enter_comesBack (hcode : CodeInv env ext c) (hrunning : c.finalize = false)
    (hguest : ∃ g, E ⟨⟨g, target⟩, false⟩ ∧ InFile g h)
    (hfin : Finished c.trans.blocks target loc)
    (hlinked : env.flags.translateOptChain = true → h.cell .chainEnd = 0#64) :
    ComesBack env ext sys resume H E ⟨.chained loc, h, c⟩ := by
  obtain ⟨g, hreach, hfile⟩ := hguest
  have hload : ∀ h₁, CalledWith loc h h₁ → ∃ h', runCode FeInstr.exec loadContext h₁ = some h' ∧
      LoadedContext g h₁ h' := fun h₁ hcall =>
    loadContext_runs (hfile.congr (fun y => congrFun hcall.cell _) hcall.mem)
  -- there is a call, and every call loads the guest's registers, whatever C code left in the others
  refine .step trivial ?_ fun s hstep => ?_
  · let h₁ : HostState := { h with reg := fun R => if R = .di then loc else 1#64 }
    have hcall : CalledWith loc h h₁ := ⟨rfl, rfl, rfl, rfl, rfl⟩
    obtain ⟨h', hrun, hloaded⟩ := hload h₁ hcall
    have hzero : Cond.z.holds (testFlags ((h₁.reg .si).setWidth 32)
        ((h₁.reg .si).setWidth 32)) = false := by
      rw [hcall.execute]
      rfl
    exact ⟨_, .enter hcall hrun hloaded.execute hzero⟩
  · cases hstep with
    | @enter _ h₁ h' _ _ _ hcall hrun hflags hzero =>
        obtain ⟨h'', hrun', hloaded⟩ := hload h₁ hcall
        obtain rfl := Option.some.inj (hrun.symm.trans hrun')
        have hax : h'.reg .ax = loc := hloaded.block.trans hcall.loc
        have hend : h'.cell .chainEnd = h.cell .chainEnd :=
          (hloaded.cell _ fun _ => by simp).trans (congrFun hcall.cell _)
        refine .here (.entry ⟨⟨hcode.unmarked, hcode.laidOut, hcode.held⟩, hrunning,
          ⟨g, target, hreach, hax ▸ hfin, ⟨hloaded.boundary.regs, hloaded.boundary.mem⟩⟩,
          fun hflag => hend.trans (hlinked hflag), ⟨hloaded.swapped, hloaded.sp, ?_⟩⟩)
        show resume :: h'.stack = resume :: h₁.stack
        rw [hloaded.stack]

/-- Every step from the head of the loop. -/
theorem AtHead.step (hs : Supported env ext) (hhead : AtHead env ext R h c) {s : RunState}
    (hstep : RunStep env sys resume ⟨.head, h, c⟩ s) :
    ComesBack env ext sys resume (fun _ => False) R s := by
  obtain ⟨hcode, ⟨g, hreach, hfile⟩, hnoted, hcaller⟩ := hhead
  cases hstep with
  | finish hfinal => exact .here (.done (.inl hfinal) (.inr hreach) hfile hcaller)
  | translateAbort => exact .here .aborted
  | @translate _ _ _ loc t hrunning hok =>
      obtain ⟨hcode', hfin, hgrown⟩ := hcode.translate hs hok
      rw [hrunning] at hreach
      have hnoted' : NotedIn env t.blocks c.nextPc h := fun hflag => (hnoted hflag).imp_right
        fun ⟨a, b, last, cond, hmem, hrest⟩ => ⟨a, b, last, cond, hgrown hmem, hrest⟩
      -- `chain` may stop the run, else the block is called
      refine .step trivial ?_ fun s hstep => ?_
      · cases hrun : Translate.chain env loc h (placeNew env c.trans t c.code) with
        | none => exact ⟨_, .chainAbort hrun⟩
        | some r => exact ⟨_, .chain hrun⟩
      · cases hstep with
        | chain hrun =>
            obtain ⟨hcode'', hend, hcell, hmem⟩ := hcode'.chain hnoted' hfin hrun
            refine enter_comesBack hcode'' hrunning ⟨g, hreach, ?_⟩ hfin hend
            exact hfile.congr (fun y => hcell _ (by simp)) hmem
        | chainAbort => exact .here .aborted

end Dispatch

/-! ## From a block to the loop or the next block -/

section Blocks

variable {env : Env} {ext : Extension} {sys : Syscalls} {resume : BitVec 64}
  {R H E : GuestConfig → Prop} {h h' : HostState} {c : Globals} {rip : BitVec 64} {g : GuestState}
  {a : RiscAddr} {m : Cpu}

/-- The machine within a run. -/
theorem goesOn_of_arrives {Q : Cpu → Prop} (harrives : Arrives (env.enc.step c.code) Q m)
    (hQ : ∀ m, Q m → GoesOn env ext sys resume H E ⟨.running m.rip, m.host, c⟩) :
    GoesOn env ext sys resume H E ⟨.running m.rip, m.host, c⟩ :=
  harrives.departs (fun m => (⟨.running m.rip, m.host, c⟩ : RunState)) (fun _ => trivial)
    (fun _ _ hstep => ⟨.exec hstep, fun _ hs => hs.of_exec hstep⟩) hQ

theorem exec_goesOn {i : FeInstr} (hcode : c.code rip = some i) (hexec : i.exec h = some h')
    (hnext : ComesBack env ext sys resume H E
      ⟨.running (rip + BitVec.ofNat 64 (env.enc.size i)), h', c⟩) :
    GoesOn env ext sys resume H E ⟨.running rip, h, c⟩ := by
  have hstep : env.enc.step c.code ⟨rip, h⟩ = some ⟨rip + BitVec.ofNat 64 (env.enc.size i), h'⟩ :=
    step_exec hcode hexec
  exact .only trivial (.exec hstep) (fun _ hs => hs.of_exec hstep) hnext

/-- A block returns to the loop. -/
theorem ret_goesOn (hcode : CodeInv env ext c) (hret : c.code rip = some .ret)
    (hreach : H ⟨⟨g, a⟩, c.finalize⟩) (hb : AtBoundary g h) (haddr : h.cell (.gp pc) = a)
    (hnoted : NotedIn env c.trans.blocks a h)
    (hframe : Framed resume h c) : GoesOn env ext sys resume H E ⟨.running rip, h, c⟩ := by
  have hb' : AtBoundary g { h with stack := c.caller.stack } := ⟨hb.regs, hb.mem⟩
  obtain ⟨h', hrun, hsaved⟩ := saveContext_runs hb'
  have hpc : h'.cell (.gp pc) = a := by
    refine (hsaved.cell (.gp pc) fun y hy heq => ?_).trans haddr
    obtain rfl := Cell.gp.inj heq
    exact absurd hy (by decide)
  -- the registers of C code come back out of the swap file, which the block has not touched
  have hcaller : CallerKept c h' := by
    refine ⟨fun R hR => ?_, (hsaved.kept .sp (by decide)).trans hframe.sp, hsaved.stack⟩
    obtain ⟨p, hp, rfl⟩ := List.mem_map.1 hR
    exact (hsaved.restored p.1 p.2 hp).trans (hframe.swapped p.1 p.2 hp)
  have hnoted' : NotedIn env c.trans.blocks a h' := by
    have hend : h'.cell .chainEnd = h.cell .chainEnd := hsaved.cell _ fun _ _ => by simp
    have htype : h'.cell .chainType = h.cell .chainType := hsaved.cell _ fun _ _ => by simp
    intro hflag
    rw [hend, htype]
    exact hnoted hflag
  -- in a debug build the slot of `x0` is checked after the block
  refine ⟨trivial, ?_, fun s hstep => ?_⟩
  · by_cases hzero : env.flags.ndebug = true ∨ h'.cell (.gp x0) = 0#64
    · exact ⟨_, .ret hret hframe.stack hrun hzero⟩
    · exact ⟨_, .illegalZero hret hframe.stack hrun hzero⟩
  · rcases hstep.of_ret hret hframe.stack hrun with rfl | ⟨hzero, rfl⟩
    · refine .here (.head ⟨⟨hcode.unmarked, hcode.laidOut, hcode.held⟩, ⟨g, ?_, hsaved.file⟩, ?_,
        ⟨hcaller.reg, hcaller.sp, hcaller.stack⟩⟩)
      · show H ⟨⟨g, h'.cell (.gp pc)⟩, c.finalize⟩
        rwa [hpc]
      · show NotedIn env c.trans.blocks (h'.cell (.gp pc)) h'
        rwa [hpc]
    · obtain ⟨hdebug, hslot⟩ := not_or.1 hzero
      exact .here (.done (.inr ⟨Bool.eq_false_iff.2 hdebug, hslot⟩) (.inl hreach) hsaved.file
        hcaller)

/-! ## System calls -/

theorem save_goesOn (hruntime : env.runtime.Distinct)
    (hcode : c.code rip = some (.call env.runtime.saveContext)) (hb : AtBoundary g h)
    (hnext : ∀ h', Saved g h h' → ComesBack env ext sys resume H E
      ⟨.running (rip + BitVec.ofNat 64 (env.enc.size (.call env.runtime.saveContext))), h', c⟩) :
    GoesOn env ext sys resume H E ⟨.running rip, h, c⟩ := by
  obtain ⟨h', hrun, hsaved⟩ := saveContext_runs hb
  refine ⟨trivial, ⟨_, .saveContext hcode hrun⟩, fun s hstep => ?_⟩
  obtain ⟨hload, hemulate, hinvalid⟩ := hruntime.save
  -- the addresses of the routines are apart, so the call is this one
  rcases hstep.of_call hcode with ⟨-, h'', hrun', rfl⟩ | ⟨heq, -⟩ | ⟨heq, -⟩ | heq
  · obtain rfl := Option.some.inj (hrun.symm.trans hrun')
    exact hnext h' hsaved
  · exact absurd heq hemulate
  · exact absurd heq hload
  · exact absurd heq hinvalid

theorem emulate_goesOn (hruntime : env.runtime.Distinct)
    (hcode : c.code rip = some (.call env.runtime.emulateEcall))
    (hsi : h.reg .si = env.runtime.gpRegFile)
    (hnext : ∀ h' ended, EmulatesEcall sys h h' ended → ComesBack env ext sys resume H E
      ⟨.running (rip + BitVec.ofNat 64 (env.enc.size (.call env.runtime.emulateEcall))), h',
        { c with finalize := c.finalize || ended }⟩) :
    GoesOn env ext sys resume H E ⟨.running rip, h, c⟩ := by
  refine ⟨trivial, ?_, fun s hstep => ?_⟩
  · by_cases hanswer : ∃ h' ended, EmulatesEcall sys h h' ended
    · obtain ⟨h', ended, hcall⟩ := hanswer
      exact ⟨_, .emulateEcall hcode hsi hcall⟩
    · exact ⟨_, .emulateAbort hcode hsi fun h' ended hcall => hanswer ⟨h', ended, hcall⟩⟩
  obtain ⟨hsave, hload, hinvalid⟩ := hruntime.emulate
  rcases hstep.of_call hcode with ⟨heq, -⟩ | ⟨-, rfl | ⟨h', ended, hcall, rfl⟩⟩ | ⟨heq, -⟩ | heq
  · exact absurd heq hsave
  · exact .here .aborted
  · exact hnext h' ended hcall
  · exact absurd heq hload
  · exact absurd heq hinvalid

theorem load_goesOn (hruntime : env.runtime.Distinct)
    (hcode : c.code rip = some (.call env.runtime.loadExecuteSaveContext)) (hfile : InFile g h)
    (hsi : (h.reg .si).setWidth 32 = 0#32)
    (hnext : ∀ h', LoadedContext g h h' → ComesBack env ext sys resume H E
      ⟨.running (rip + BitVec.ofNat 64 (env.enc.size
        (.call env.runtime.loadExecuteSaveContext))), h', c⟩) :
    GoesOn env ext sys resume H E ⟨.running rip, h, c⟩ := by
  obtain ⟨h', hrun, hloaded⟩ := loadContext_runs hfile
  -- with zero as its second argument the routine only loads
  have hzero : Cond.z.holds (testFlags ((h.reg .si).setWidth 32) ((h.reg .si).setWidth 32)) =
      true := by
    rw [hsi]
    rfl
  refine ⟨trivial, ⟨_, .loadContext hcode hrun hloaded.execute hzero⟩, fun s hstep => ?_⟩
  obtain ⟨hsave, hemulate, hinvalid⟩ := hruntime.load
  rcases hstep.of_call hcode with ⟨heq, -⟩ | ⟨heq, -⟩ | ⟨-, h'', hrun', rfl⟩ | heq
  · exact absurd heq hsave
  · exact absurd heq hemulate
  · obtain rfl := Option.some.inj (hrun.symm.trans hrun')
    exact hnext h' hloaded
  · exact absurd heq hinvalid

/-- What `emulate_ecall` leaves in the register file is the guest's state after the call. -/
theorem EmulatesEcall.file {ended : Bool} (hcall : EmulatesEcall sys h h' ended)
    (hfile : InFile g h) :
    sys g.args g.mem (h'.cell (.gp a0)) h'.mem ended ∧
      InFile (g.afterCall (h'.cell (.gp a0)) h'.mem) h' := by
  have hargs : fileArgs h = g.args := by
    funext y
    unfold fileArgs GuestState.args GuestState.read
    by_cases hy : y = x0
    · subst hy
      rfl
    · by_cases hlt : y < 32
      · rw [if_pos ⟨hy, hlt⟩, if_pos hlt, if_neg hy, hfile.regs y hy hlt]
      · rw [if_neg fun hc => hlt hc.2, if_neg hlt]
  refine ⟨?_, fun y hy hlt => ?_, rfl⟩
  · have hsys := hcall.call
    rwa [hargs, hfile.mem] at hsys
  · show h'.cell (.gp y) = (g.write a0 (h'.cell (.gp a0))).reg y
    by_cases hya : y = a0
    · subst hya
      exact (GuestState.write_reg_self g hy _).symm
    · rw [GuestState.write_reg_of_ne g hya, ← hfile.regs y hy hlt]
      refine hcall.cell _ (fun heq => hya (Cell.gp.inj heq)) fun heq => ?_
      obtain rfl := Cell.gp.inj heq
      exact absurd hlt (by decide)

/-- The end of a block with a system call clears `chain_end`. -/
theorem ecallEnd_runs (env : Env) (h : HostState) :
    ∃ is h', boundaryCode env.flags ++ endingCode env true = is ++ [.ret] ∧
      runCode FeInstr.exec is h = some h' ∧ h'.reg = h.reg ∧ h'.mem = h.mem ∧ h'.stack = h.stack ∧
      (env.flags.translateOptChain = true → h'.cell .chainEnd = 0#64) ∧
      ∀ c, c ≠ .chainEnd → h'.cell c = h.cell c := by
  unfold endingCode
  by_cases hflag : env.flags.translateOptChain = true
  · rw [if_pos ⟨hflag, rfl⟩]
    refine ⟨boundaryCode env.flags ++ [.mov64miCell .chainEnd 0#64], h.setCell .chainEnd 0#64,
      (List.append_assoc ..).symm, ?_, rfl, rfl, rfl, fun _ => h.cell_setCell_self _ _,
      fun _ hc => h.cell_setCell_of_ne hc _⟩
    rw [runCode_append, runCode_boundary]
    rfl
  · rw [if_neg fun hc => hflag hc.1]
    exact ⟨boundaryCode env.flags, h, rfl, runCode_boundary _ h, rfl, rfl, rfl,
      fun hc => absurd hc hflag, fun _ _ => rfl⟩

/-- The context is loaded again and the block returns. -/
theorem afterCall_goesOn (hruntime : env.runtime.Distinct) (hcode : CodeInv env ext c)
    (hload : c.code rip = some (.call env.runtime.loadExecuteSaveContext))
    (hrest : Holds env.enc c.code
      (rip + BitVec.ofNat 64 (env.enc.size (.call env.runtime.loadExecuteSaveContext)))
      (boundaryCode env.flags ++ endingCode env true))
    (hreach : H ⟨⟨g, a⟩, c.finalize⟩) (hfile : InFile g h)
    (hsi : (h.reg .si).setWidth 32 = 0#32) (haddr : h.cell (.gp pc) = a)
    (hkept : ∀ R slot, (R, slot) ∈ swapSlots → h.reg R = c.caller.reg R)
    (hsp : h.reg .sp = c.caller.reg .sp) (hstack : h.stack = resume :: c.caller.stack) :
    GoesOn env ext sys resume H E ⟨.running rip, h, c⟩ := by
  refine load_goesOn hruntime hload hfile hsi fun h₁ hloaded => ?_
  obtain ⟨is, h₂, hsplit, hrun, hreg, hmem, hstk, hend, hcell⟩ := ecallEnd_runs env h₁
  rw [hsplit] at hrest
  obtain ⟨hheld, hret, -⟩ := holds_append.1 hrest
  have hreaches := reaches_runCode hheld hrun
  have hcellLoaded : ∀ c, c ≠ .chainEnd → (∀ slot, c ≠ .swap slot) → h₂.cell c = h.cell c :=
    fun c hc hswap => (hcell c hc).trans (hloaded.cell c hswap)
  have hb : AtBoundary g h₂ := hloaded.boundary.congr hmem (fun _ _ _ => by rw [hreg])
    fun _ _ => hcell _ (by simp)
  -- the load has moved the caller's registers into their slots
  have hframe : Framed resume h₂ c := by
    refine ⟨fun R slot hslot => ?_, ?_, ?_⟩
    · refine (hcell _ (by simp)).trans ?_
      exact (hloaded.swapped R slot hslot).trans (hkept R slot hslot)
    · rw [hreg, hloaded.sp, hsp]
    · rw [hstk, hloaded.stack, hstack]
  have hpc : h₂.cell (.gp pc) = a := (hcellLoaded _ (by simp) fun _ => by simp).trans haddr
  refine Departs.arrives (goesOn_of_arrives (m := ⟨_, h₁⟩) (Q := (· = ⟨_, h₂⟩))
    ⟨_, hreaches, rfl⟩ ?_)
  rintro m rfl
  exact ret_goesOn hcode hret hreach hb hpc (fun hflag => .inl (hend hflag)) hframe

theorem ecall_goesOn (hruntime : env.runtime.Distinct) (hcode : CodeInv env ext c)
    (hrunning : c.finalize = false)
    (hmove : ∀ result mem ended, sys g.args g.mem result mem ended →
      H ⟨⟨g.afterCall result mem, a + 4#64⟩, ended⟩)
    (hheld : Holds env.enc c.code rip (ecallCode env a))
    (hb : AtBoundary g h) (hframe : Framed resume h c) :
    GoesOn env ext sys resume H E ⟨.running rip, h, c⟩ := by
  obtain ⟨hsave, hdi, hsi, hemulate, hxor, hload, hrest⟩ := hheld
  refine save_goesOn hruntime hsave hb fun h₁ hsaved => ?_
  -- the arguments of `emulate_ecall`
  let h₂ := (h₁.setReg .di a).setReg .si env.runtime.gpRegFile
  have hargs : ∀ R, R ≠ .di → R ≠ .si → h₂.reg R = h₁.reg R := fun R h h' =>
    (HostState.reg_setReg_of_ne _ h' _).trans (h₁.reg_setReg_of_ne h _)
  have hreg : ∀ R slot, (R, slot) ∈ swapSlots → h₂.reg R = c.caller.reg R := by
    intro R slot hslot
    have hR : R ∈ calleeSaved := List.mem_map.2 ⟨_, hslot, rfl⟩
    have hdi : R ≠ .di := fun h => absurd (h ▸ hR) (by decide)
    have hsi : R ≠ .si := fun h => absurd (h ▸ hR) (by decide)
    exact (hargs R hdi hsi).trans
      ((hsaved.restored R slot hslot).trans (hframe.swapped R slot hslot))
  have hsp₂ : h₂.reg .sp = c.caller.reg .sp :=
    (hargs .sp (by simp) (by simp)).trans ((hsaved.kept .sp (by decide)).trans hframe.sp)
  have hfile₂ : InFile g h₂ := ⟨hsaved.file.regs, hsaved.file.mem⟩
  refine (exec_goesOn hdi rfl (exec_goesOn hsi rfl ?_).arrives).arrives
  show ComesBack env ext sys resume H E ⟨.running _, h₂, c⟩
  have hsi₂ : h₂.reg .si = env.runtime.gpRegFile := HostState.reg_setReg_self _ _ _
  refine (emulate_goesOn hruntime hemulate hsi₂ fun h₃ ended hcall => ?_).arrives
  let c₃ : Globals := { c with finalize := c.finalize || ended }
  obtain ⟨hsys, hfile₃⟩ := hcall.file hfile₂
  have hpc : h₃.cell (.gp pc) = a + 4#64 := by
    refine hcall.addr.trans (congrArg (· + 4#64) ?_)
    exact (HostState.reg_setReg_of_ne _ (by simp) _).trans (h₁.reg_setReg_self _ _)
  have hended : c₃.finalize = ended := by
    show (c.finalize || ended) = ended
    rw [hrunning]
    rfl
  -- the second argument of `load_execute_save_context` is zero
  let h₄ := (h₃.setReg .si (sized .s32 AluOp.xor.eval (h₃.reg .si) (h₃.reg .si))).clobberFlags
  have hzero : (h₄.reg .si).setWidth 32 = 0#32 := by
    have hsi₄ : h₄.reg .si = sized .s32 AluOp.xor.eval (h₃.reg .si) (h₃.reg .si) :=
      HostState.reg_setReg_self h₃ .si _
    rw [hsi₄]
    simp [sized, AluOp.eval]
  have hreg₄ : ∀ R, R ≠ .si → h₄.reg R = h₃.reg R := fun R hR => h₃.reg_setReg_of_ne hR _
  have hxor₃ : c₃.code _ = some (.alurr .xor .s32 .si .si) := hxor
  have hload₃ : c₃.code _ = some (.call env.runtime.loadExecuteSaveContext) := hload
  have hcode₃ : CodeInv env ext c₃ := ⟨hcode.unmarked, hcode.laidOut, hcode.held⟩
  have hfile₄ : InFile (g.afterCall (h₃.cell (.gp a0)) h₃.mem) h₄ := ⟨hfile₃.regs, hfile₃.mem⟩
  refine (exec_goesOn hxor₃ rfl ?_).arrives
  show ComesBack env ext sys resume H E ⟨.running _, h₄, c₃⟩
  refine (afterCall_goesOn (a := a + 4#64) hruntime hcode₃ hload₃ hrest
    (hended ▸ hmove _ _ _ hsys)
    hfile₄ hzero hpc (fun R slot hslot => ?_) ?_ ?_).arrives
  · have hR : R ∈ calleeSaved := List.mem_map.2 ⟨_, hslot, rfl⟩
    have hsi : R ≠ .si := fun h => absurd (h ▸ hR) (by decide)
    exact (hreg₄ R hsi).trans ((hcall.kept R hR).trans (hreg R slot hslot))
  · exact (hreg₄ .sp (by simp)).trans (hcall.sp.trans hsp₂)
  · exact hcall.stack.trans (hsaved.stack.trans hframe.stack)

/-- From the start of a block every run comes to the loop or to another block, with a guest that
has moved on. -/
theorem AtEntry.goesOn (hruntime : env.runtime.Distinct)
    (hright : ∀ c, R c → c.ended = false → GoesRight (fetched env) ext c.current)
    (hmoves : ∀ c c', R c → Relation.TransGen (GuestMoves (fetched env) ext sys) c c' → H c')
    (hentry : AtEntry env ext resume R rip h c) :
    GoesOn env ext sys resume H H ⟨.running rip, h, c⟩ := by
  obtain ⟨hcode, hrunning, ⟨g, a, hreach, ⟨-, b, hmem, rfl⟩, hb⟩, hlinked, hframe⟩ := hentry
  obtain ⟨hgarbled, last, hlast, hleads⟩ := hcode.laidOut.leads a b hmem g (hright _ hreach rfl)
  have harrives := hleads (Finished c.trans.blocks) c.code h (fun _ _ h => h)
    (hcode.held a b last hmem hgarbled hlast) hb hlinked
  refine goesOn_of_arrives harrives fun m ⟨next, hrun, hadvance, hleaves⟩ => ?_
  have hkept := hleaves.kept
  have hframe' : Framed resume m.host c := by
    refine ⟨fun R slot hslot => ?_, hkept.sp.trans hframe.sp, hkept.stack.trans hframe.stack⟩
    have hsame : m.host.cell (.swap slot) = h.cell (.swap slot) :=
      hkept.cell _ id (swapSlots_ne_scratch hslot) (by simp) (by simp) (by simp)
    exact hsame.trans (hframe.swapped R slot hslot)
  -- the block is left by a chained jump, by its `RET`, or it goes on to a system call
  cases hleaves.way with
  | jump hmnem hjump hend =>
      obtain ⟨loc, hfin, hstep⟩ := hjump
      refine .only trivial (.exec hstep) (fun _ hs => hs.of_exec hstep) (.here (.entry ?_))
      exact ⟨hcode, hrunning, ⟨next.state, next.addr, hmoves _ _ hreach (hadvance hmnem).moves,
        hfin, hleaves.boundary⟩, fun hflag => hend.trans (hlinked hflag), hframe'⟩
  | finish hmnem hret haddr hnoted =>
      refine ret_goesOn hcode hret (hrunning ▸ hmoves _ _ hreach (hadvance hmnem).moves)
        hleaves.boundary haddr (fun hflag => ?_) hframe'
      refine (hnoted hflag).imp_right ?_
      rintro ⟨cond, hstub, htarget, htype⟩
      exact ⟨a, b, last, cond, hmem, hlast, hstub, htarget, htype⟩
  | call hecall hheld =>
      refine ecall_goesOn hruntime hcode hrunning (fun result mem ended hsys => ?_) hheld
        hleaves.boundary hframe'
      exact hmoves _ _ hreach (Relation.TransGen.tail' hrun.reaches (.syscall hecall hsys))

end Blocks

end RiaJit.Translate
