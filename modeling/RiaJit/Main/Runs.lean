import RiaJit.Main.Execution

/-!
# Runs of the dispatcher

What holds of whole runs of `transcode_loop` from the start of a guest that does not fault:
they simulate the guest, do not get stuck, keep what C functions keep, and are finite where
the runs of the guest are.
-/

set_option autoImplicit false

namespace RiaJit.Translate

open EmitLogic X86 Checkpoints

/-- A guest at the start of the loop: what is asked of the settings and the program, the
guest's state in the register file, and no guest that faults. -/
structure Starts (env : Env) (ext : Extension) (sys : Syscalls) (pos : CacheLoc) (entry : RiscAddr)
    (g : GuestState) (h : HostState) : Prop where
  supported : Supported env ext
  runtime : env.runtime.Distinct
  pos : InInstrMem pos
  file : InFile g h
  linked : env.flags.translateOptChain = true → h.cell .chainEnd = 0#64
  wellBehaved : WellBehaved (fetched env) ext sys ⟨⟨g, entry⟩, false⟩

/-! ## A guest that ends at once -/

/-- A program that calls `exit`. -/
def exitCall : List (BitVec 32) := [0x05d00893#32, 0x00000073#32]

/-- The translator of this program, without the return stack and without fusion. -/
def exitEnv : Env :=
  { Env.plain { translateOptRas := false, translateOptFusion := false }
      (CodeMem.ofWords 0x1000#64 exitCall) with
    runtime := ⟨1#64, 2#64, 3#64, 4#64, 5#64⟩ }

/-- System calls that end the guest. -/
def exitSys : Syscalls := fun args mem result mem' ended =>
  result = args a0 ∧ mem' = mem ∧ ended = true

/-- The program has two instructions. -/
theorem fetched_exitCall {a : RiscAddr} {instr : RiscInstr} (h : fetched exitEnv a = some instr) :
    a = 0x1000#64 ∧ instr.mnem = .addi ∨ a = 0x1004#64 ∧ instr.mnem = .ecall := by
  have hmapped : a ∈ (Finset.range exitCall.length).image fun i =>
      0x1000#64 + BitVec.ofNat 64 (4 * i) :=
    (finitelyMapped_ofWords {} 0x1000#64 exitCall (by decide)).mapped a (fetched_mapped h)
  obtain ⟨i, hi, rfl⟩ := Finset.mem_image.1 hmapped
  have hi : i < 2 := Finset.mem_range.1 hi
  have hfirst : (fetched exitEnv 0x1000#64).map RiscInstr.mnem = some .addi := by decide +kernel
  have hsecond : (fetched exitEnv 0x1004#64).map RiscInstr.mnem = some .ecall := by decide +kernel
  interval_cases i
  · refine .inl ⟨rfl, ?_⟩
    have h' : fetched exitEnv 0x1000#64 = some instr := h
    rw [h'] at hfirst
    exact Option.some.inj hfirst
  · refine .inr ⟨rfl, ?_⟩
    have h' : fetched exitEnv 0x1004#64 = some instr := h
    rw [h'] at hsecond
    exact Option.some.inj hsecond

/-- The first one sets the number of the call. -/
theorem exitCall_first (g : GuestState) :
    ∃ g', guestStep (fetched exitEnv) (fun _ => none) ⟨g, 0x1000#64⟩ = some ⟨g', 0x1004#64⟩ := by
  have hfirst : (fetched exitEnv 0x1000#64).map RiscInstr.mnem = some .addi := by decide +kernel
  obtain ⟨instr, hfetch, hmnem⟩ := Option.map_eq_some_iff.1 hfirst
  have haddr : instr.addr = 0x1000#64 := (fetched_sound hfetch).1
  refine ⟨g.step instr, (guestStep_of_fetch hfetch).trans ?_⟩
  unfold RiscInstr.execute RiscInstr.branchTaken RiscInstr.effect
  rw [hmnem, haddr]
  rfl

/-- The second one is the call. -/
theorem exitCall_second (g : GuestState) : AtEcall (fetched exitEnv) ⟨g, 0x1004#64⟩ := by
  have hsecond : (fetched exitEnv 0x1004#64).map RiscInstr.mnem = some .ecall := by decide +kernel
  exact Option.map_eq_some_iff.1 hsecond

/-- The guest goes on to the call, and ends with it. -/
theorem exitCall_moves {g : GuestState} {a : RiscAddr} {c : GuestConfig}
    (h : GuestMoves (fetched exitEnv) (fun _ => none) exitSys ⟨⟨g, a⟩, false⟩ c) :
    (a = 0x1000#64 ∧ ∃ g', c = ⟨⟨g', 0x1004#64⟩, false⟩) ∨ c.ended = true := by
  cases h with
  | @instruction _ next hstep =>
      refine .inl ?_
      obtain ⟨instr, hfetch, hexec⟩ := Option.bind_eq_some_iff.1 hstep
      rcases fetched_exitCall hfetch with ⟨rfl, -⟩ | ⟨rfl, hmnem⟩
      · obtain ⟨g', hfirst⟩ := exitCall_first g
        obtain rfl := Option.some.inj (hfirst.symm.trans hstep)
        exact ⟨rfl, g', rfl⟩
      · exact absurd hmnem (execute_running hexec).1
  | syscall _ hsys => exact .inr hsys.2.2

/-- The program meets what a start asks of it. -/
theorem exitCall_starts (g : GuestState) (h : HostState) (hfile : InFile g h)
    (hlinked : h.cell .chainEnd = 0#64) :
    Starts exitEnv (fun _ => none) exitSys (BitVec.ofNat 64 instrMemBase) 0x1000#64 g h := by
  have hjalr : ∀ {a instr}, fetched exitEnv a = some instr → instr.mnem ≠ .jalr := by
    intro a instr hfetch hmnem
    rcases fetched_exitCall hfetch with ⟨-, h⟩ | ⟨-, h⟩
    · cases hmnem.symm.trans h
    · cases hmnem.symm.trans h
  refine ⟨⟨rfl, rfl, fun a instr hfetch hmnem => absurd hmnem (hjalr hfetch),
    fun _ a trace b instr _ hfetch hmnem => absurd hmnem (hjalr hfetch),
    fun a instr f _ _ hf => by cases hf⟩, (by decide : [1#64, 3#64, 2#64, 4#64].Nodup),
    inInstrMem_base, hfile, fun _ => hlinked, ?_⟩
  -- the guest is at one of the two instructions or has ended
  have hinv : ∀ c, GuestReaches (fetched exitEnv) (fun _ => none) exitSys
      ⟨⟨g, 0x1000#64⟩, false⟩ c → c.ended = true ∨ c.current.addr = 0x1000#64 ∨
        c.current.addr = 0x1004#64 := by
    intro c hreach
    induction hreach with
    | refl => exact .inr (.inl rfl)
    | @tail c c' _ hmove _ =>
        cases c with
        | mk current ended =>
            cases ended with
            | true => cases hmove
            | false =>
                rcases exitCall_moves hmove with ⟨-, g', rfl⟩ | hended
                · exact .inr (.inr rfl)
                · exact .inl hended
  intro c hreach hrunning
  obtain ⟨⟨g', a⟩, ended⟩ := c
  rcases hinv _ hreach with hended | haddr | haddr
  · cases hended.symm.trans hrunning
  · obtain rfl : a = 0x1000#64 := haddr
    obtain ⟨g'', hstep⟩ := exitCall_first g'
    exact .inr ⟨_, hstep⟩
  · obtain rfl : a = 0x1004#64 := haddr
    exact .inl (exitCall_second g')

/-- All runs of the guest end. -/
theorem exitCall_finite (g : GuestState) :
    Acc (fun c' c => GuestMoves (fetched exitEnv) (fun _ => none) exitSys c c')
      ⟨⟨g, 0x1000#64⟩, false⟩ := by
  have hended : ∀ c : GuestConfig, c.ended = true →
      Acc (fun c' c => GuestMoves (fetched exitEnv) (fun _ => none) exitSys c c') c := by
    rintro ⟨current, ended⟩ rfl
    exact Acc.intro _ fun _ hmove => by cases hmove
  have hsecond : ∀ g', Acc (fun c' c => GuestMoves (fetched exitEnv) (fun _ => none) exitSys c c')
      ⟨⟨g', 0x1004#64⟩, false⟩ := by
    refine fun g' => Acc.intro _ fun c hmove => ?_
    rcases exitCall_moves hmove with ⟨ha, -⟩ | h
    · exact absurd ha (by decide)
    · exact hended c h
  refine Acc.intro _ fun c hmove => ?_
  rcases exitCall_moves hmove with ⟨-, g', rfl⟩ | h
  · exact hsecond g'
  · exact hended c h

/-- The guest's registers hold three times their numbers at first. -/
def exitGuest : GuestState := ⟨fun y => BitVec.ofNat 64 (3 * y), fun _ => 0#8⟩

/-- The register file has them, the stack pointer and the other registers are those of C code. -/
def exitHost : HostState where
  reg R := if R = .sp then 0x7000#64 else 9#64
  flags := none
  cell
    | .gp y => if y < 32 then BitVec.ofNat 64 (3 * y) else 0#64
    | _ => 0#64
  mem := exitGuest.mem
  stack := [7#64]

theorem exitStarts : Starts exitEnv (fun _ => none) exitSys (BitVec.ofNat 64 instrMemBase)
    0x1000#64 exitGuest exitHost :=
  exitCall_starts exitGuest exitHost ⟨fun _ _ hlt => if_pos hlt, rfl⟩ rfl

/-- What `emulate_ecall` leaves for such a system call. -/
def exitAnswer (h : HostState) : HostState × Bool :=
  ((h.setCell (.gp pc) (h.reg .di + 4#64)).setCell (.gp a0) (fileArgs h a0), true)

/-- The answer of the system is one that the call may have. -/
theorem exitAnswer_emulates (h : HostState) :
    EmulatesEcall exitSys h (exitAnswer h).1 (exitAnswer h).2 where
  call := ⟨HostState.cell_setCell_self _ _ _, rfl, rfl⟩
  addr := by
    refine (HostState.cell_setCell_of_ne _ (by decide) _).trans ?_
    exact h.cell_setCell_self _ _
  cell := fun c ha0 hpc => by
    refine (HostState.cell_setCell_of_ne _ ha0 _).trans ?_
    exact h.cell_setCell_of_ne hpc _
  kept := fun _ _ => rfl
  sp := rfl
  stack := rfl

/-- The state before this program is run. -/
def exitInitial : RunState :=
  .initial (BitVec.ofNat 64 instrMemBase) 0x1000#64 (fun _ => none) exitHost

/-- The state after `n` steps of its run. -/
def exitState (n : Nat) : RunState := runFor exitEnv exitAnswer 0#64 3 n exitInitial

/-- The run is a run of the dispatcher. -/
theorem exitState_reached (n : Nat) : RunReaches exitEnv exitSys 0#64 exitInitial (exitState n) :=
  runFor_sound exitAnswer_emulates n exitInitial

/-! ## The simulation -/

section Runs

variable {env : Env} {ext : Extension} {sys : Syscalls} {resume : BitVec 64}
  {H E H' E' : GuestConfig → Prop} {s s' : RunState} {pos : CacheLoc} {entry : RiscAddr}
  {g : GuestState} {h : HostState} {code : CodeAt}

/-- What is asked of the guest's states may be weakened. -/
theorem Checkpoint.mono (hcheck : Checkpoint env ext resume H E s) (hH : ∀ c, H c → H' c)
    (hE : ∀ c, E c → E' c) : Checkpoint env ext resume H' E' s := by
  cases hcheck with
  | head hhead =>
      obtain ⟨hcode, ⟨g, hg, hfile⟩, hnoted, hcaller⟩ := hhead
      exact .head ⟨hcode, ⟨g, hH _ hg, hfile⟩, hnoted, hcaller⟩
  | entry hentry =>
      obtain ⟨hcode, hrunning, ⟨g, a, hg, hrest⟩, hlinked, hframe⟩ := hentry
      exact .entry ⟨hcode, hrunning, ⟨g, a, hE _ hg, hrest⟩, hlinked, hframe⟩
  | done hends hg hfile hcaller => exact .done hends (hg.imp (hH _) (hE _)) hfile hcaller
  | aborted => exact .aborted

/-- The configurations that the guest reaches from the start of a run. -/
def Reached (env : Env) (ext : Extension) (sys : Syscalls) (entry : RiscAddr) (g : GuestState) :
    GuestConfig → Prop :=
  GuestReaches (fetched env) ext sys ⟨⟨g, entry⟩, false⟩

/-- In every state that the guest reaches it can go on. -/
theorem Starts.goesRight (hstart : Starts env ext sys pos entry g h) (c : GuestConfig)
    (hreach : Reached env ext sys entry g c) (hrunning : c.ended = false) :
    GoesRight (fetched env) ext c.current := by
  obtain ⟨current, ended⟩ := c
  subst hrunning
  exact hstart.wellBehaved.goesRight hreach

theorem Starts.entryGoesOn (hstart : Starts env ext sys pos entry g h) {rip : BitVec 64}
    {h' : HostState} {c : Globals}
    (hentry : AtEntry env ext resume (Reached env ext sys entry g) rip h' c) :
    GoesOn env ext sys resume (Reached env ext sys entry g) (Reached env ext sys entry g)
      ⟨.running rip, h', c⟩ :=
  hentry.goesOn hstart.runtime hstart.goesRight fun _ _ hreach hmoves =>
    hreach.trans hmoves.to_reflTransGen

/-- From one checkpoint every step leads to the next one. -/
theorem Starts.step (hstart : Starts env ext sys pos entry g h)
    (hcheck : Checkpoint env ext resume (Reached env ext sys entry g) (Reached env ext sys entry g)
      s) (hstep : RunStep env sys resume s s') :
    ComesBack env ext sys resume (Reached env ext sys entry g) (Reached env ext sys entry g)
      s' := by
  cases hcheck with
  | head hhead =>
      exact (hhead.step hstart.supported hstep).mono (fun _ h => h) fun _ hcheck =>
        hcheck.mono (fun _ h => h.elim) fun _ h => h
  | entry hentry => exact (hstart.entryGoesOn hentry).returns _ hstep
  | done => cases hstep
  | aborted => cases hstep

/-- The initial state is at the head of the loop. -/
theorem Starts.atHead (hstart : Starts env ext sys pos entry g h) (code : CodeAt) :
    AtHead env ext (Reached env ext sys entry g) h ⟨code, .initial pos, entry, false, h⟩ where
  code := ⟨unmarked_initial hstart.pos, laidOut_initial pos,
    fun _ _ _ hmem => absurd hmem List.not_mem_nil⟩
  guest := ⟨g, .refl, hstart.file⟩
  noted := fun hflag => .inl (hstart.linked hflag)
  caller := ⟨fun _ _ => rfl, rfl, rfl⟩

/-- From every state of a run, whatever the system calls do, the run comes back to the head of
the loop or to the start of a block, or ends. -/
theorem Starts.comesBack (hstart : Starts env ext sys pos entry g h)
    (hrun : RunReaches env sys resume (.initial pos entry code h) s) :
    ComesBack env ext sys resume (Reached env ext sys entry g) (Reached env ext sys entry g) s :=
  Returns.run (fun _ _ hcheck hstep => hstart.step hcheck hstep)
    (.here (.head (hstart.atHead code))) hrun

/-- Every state outside the blocks that a run reaches is a checkpoint, by induction on the run. -/
theorem Starts.checkpoint (hstart : Starts env ext sys pos entry g h)
    (hrun : RunReaches env sys resume (.initial pos entry code h) s) (hout : ¬ Inside s) :
    Checkpoint env ext resume (Reached env ext sys entry g) (Reached env ext sys entry g) s :=
  (hstart.comesBack hrun).arrived hout

/-- The loop's head and its end are not inside an execution. -/
theorem not_inside_of (hphase : s.phase = .head ∨ s.phase = .done) : ¬ Inside s := by
  unfold Inside
  rcases hphase with hphase | hphase
  · rw [hphase]
    exact id
  · rw [hphase]
    exact id

/-- In every run of the dispatcher, at the head of the loop the register file and the memory are
those of the guest in a configuration that it reaches at the address of the next block, and
behind the loop those of the guest when it has ended. -/
theorem dispatcher_simulates (resume : BitVec 64) (code : CodeAt)
    (hstart : Starts env ext sys pos entry g h)
    (hrun : RunReaches env sys resume (.initial pos entry code h) s) :
    (s.phase = .head → ∃ g', InFile g' s.host ∧ GuestReaches (fetched env) ext sys
      ⟨⟨g, entry⟩, false⟩ ⟨⟨g', s.globals.nextPc⟩, s.globals.finalize⟩) ∧
    (s.phase = .done → env.flags.ndebug = true → ∃ g' a, InFile g' s.host ∧
      GuestReaches (fetched env) ext sys ⟨⟨g, entry⟩, false⟩ ⟨⟨g', a⟩, true⟩) := by
  constructor
  · intro hphase
    cases hstart.checkpoint hrun (not_inside_of (.inl hphase)) with
    | head hhead =>
        obtain ⟨g', hreach, hfile⟩ := hhead.guest
        exact ⟨g', hfile, hreach⟩
    | entry | done | aborted => cases hphase
  · intro hphase hndebug
    cases hstart.checkpoint hrun (not_inside_of (.inr hphase)) with
    | @done h c g' a hends hreach hfile =>
        rcases hends with hfinal | ⟨hdebug, -⟩
        · rw [hfinal, or_self] at hreach
          exact ⟨g', a, hfile, hreach⟩
        · rw [hndebug] at hdebug
          cases hdebug
    | head | entry | aborted => cases hphase

/-- The block of the two instructions is translated, entered and left, and the loop ends. -/
theorem dispatcher_simulates_exitCall :
    (exitState 14).phase = .done ∧ (exitState 14).host.cell (.gp 17) = 93#64 ∧
      ∃ g' a, InFile g' (exitState 14).host ∧
        GuestReaches (fetched exitEnv) (fun _ => none) exitSys ⟨⟨exitGuest, 0x1000#64⟩, false⟩
          ⟨⟨g', a⟩, true⟩ := by
  have hphase : (exitState 14).phase = .done := by decide +kernel
  refine ⟨hphase, by decide +kernel, ?_⟩
  exact (dispatcher_simulates 0#64 (fun _ => none) exitStarts (exitState_reached 14)).2 hphase rfl

/-- No run of the dispatcher gets stuck before it ends. -/
theorem dispatcher_progress (resume : BitVec 64) (code : CodeAt) {M : Finset RiscAddr}
    (hM : FinitelyMapped env M) (hstart : Starts env ext sys pos entry g h)
    (hrun : RunReaches env sys resume (.initial pos entry code h) s) :
    s.phase = .done ∨ s.phase = .aborted ∨ ∃ s', RunStep env sys resume s s' := by
  rcases (hstart.comesBack hrun).progress with hcheck | hnext
  · -- at the head the loop ends or a block is looked up and translated, which terminates
    cases hcheck with
    | @head h c hhead =>
        refine .inr (.inr ?_)
        cases hfinal : c.finalize with
        | true => exact ⟨_, .finish hfinal⟩
        | false =>
            obtain ⟨fuel, ⟨loc, t, hok⟩ | ⟨reason, habort⟩⟩ :=
              transcode_total hM hhead.code.unmarked c.nextPc
            · exact ⟨_, .translate hfinal hok⟩
            · exact ⟨_, .translateAbort hfinal habort⟩
    | entry hentry =>
        exact .inr (.inr (hstart.entryGoesOn hentry).next)
    | done => exact .inl rfl
    | aborted => exact .inr (.inl rfl)
  · exact .inr (.inr hnext)

/-- Behind `save_context` the run is at the call of `emulate_ecall`. -/
theorem dispatcher_progress_exitCall :
    (∃ rip, (exitState 8).phase = .running rip ∧
      (exitState 8).globals.code rip = some (.call exitEnv.runtime.emulateEcall)) ∧
    ∃ s', RunStep exitEnv exitSys 0#64 (exitState 8) s' := by
  have hphase : (exitState 8).phase = .running 0x77ff81000032#64 := by decide +kernel
  refine ⟨⟨_, hphase, by decide +kernel⟩, ?_⟩
  have hmapped := finitelyMapped_ofWords {} 0x1000#64 exitCall (by decide)
  rcases dispatcher_progress 0#64 (fun _ => none)
    (⟨hmapped.mapped, hmapped.leaves⟩ : FinitelyMapped exitEnv _) exitStarts
    (exitState_reached 8) with hdone | haborted | hnext
  · cases hphase.symm.trans hdone
  · cases hphase.symm.trans haborted
  · exact hnext

/-- C code gets back its stack and the registers that functions keep, whatever blocks and system
calls have been executed. -/
theorem dispatcher_keeps_caller (resume : BitVec 64) (code : CodeAt)
    (hstart : Starts env ext sys pos entry g h)
    (hrun : RunReaches env sys resume (.initial pos entry code h) s)
    (hphase : s.phase = .head ∨ s.phase = .done) : CallerKept s.globals s.host := by
  -- both phases are checkpoints, at which the invariant says so
  cases hstart.checkpoint hrun (not_inside_of hphase) with
  | head hhead => exact hhead.caller
  | done _ _ _ hcaller => exact hcaller
  | entry | aborted => rcases hphase with hphase | hphase <;> cases hphase

theorem dispatcher_keeps_caller_exitCall :
    (exitState 14).phase = .done ∧ (exitState 14).globals.caller.reg .sp = 0x7000#64 ∧
      CallerKept (exitState 14).globals (exitState 14).host := by
  have hphase : (exitState 14).phase = .done := by decide +kernel
  refine ⟨hphase, by decide +kernel, ?_⟩
  exact dispatcher_keeps_caller 0#64 (fun _ => none) exitStarts (exitState_reached 14)
    (.inr hphase)

/-! ## Runs of guests that end -/

/-- A run that has ended has no more steps. -/
theorem acc_ended (hphase : s.phase = .done ∨ s.phase = .aborted) :
    Acc (fun s' s => RunStep env sys resume s s') s := by
  obtain ⟨phase, h, c⟩ := s
  refine Acc.intro _ fun s' hstep => ?_
  rcases hphase with rfl | rfl
  · cases hstep
  · cases hstep

/-- The runs from the checkpoints of a guest whose runs are finite are finite. The induction is on
the runs of the guest, which moves on between the starts of two blocks. -/
theorem Starts.acc_checkpoint (hstart : Starts env ext sys pos entry g h) {c : GuestConfig}
    (hfinite : Acc (fun c' c => Relation.TransGen (GuestMoves (fetched env) ext sys) c c') c)
    (hreach : Reached env ext sys entry g c) {s : RunState}
    (hcheck : Checkpoint env ext resume (· = c) (· = c) s) :
    Acc (fun s' s => RunStep env sys resume s s') s := by
  induction hfinite generalizing s with
  | intro c _ ih =>
      have hentry : ∀ {rip h c'}, AtEntry env ext resume (· = c) rip h c' →
          Acc (fun s' s => RunStep env sys resume s s') ⟨.running rip, h, c'⟩ := by
        intro rip h c' hentry
        have hgoes : GoesOn env ext sys resume
            (fun c' => Relation.TransGen (GuestMoves (fetched env) ext sys) c c')
            (fun c' => Relation.TransGen (GuestMoves (fetched env) ext sys) c c')
            ⟨.running rip, h, c'⟩ := by
          refine hentry.goesOn hstart.runtime ?_ ?_
          · rintro _ rfl
            exact hstart.goesRight _ hreach
          · rintro _ _ rfl hmoves
            exact hmoves
        -- at the next checkpoint the guest has moved on, so the hypothesis applies
        refine hgoes.arrives.acc fun m hm => ?_
        cases hm with
        | head hhead =>
            obtain ⟨hcode, ⟨g', hmoves, hfile⟩, hnoted, hcaller⟩ := hhead
            exact ih _ hmoves (hreach.trans hmoves.to_reflTransGen)
              (.head ⟨hcode, ⟨g', rfl, hfile⟩, hnoted, hcaller⟩)
        | entry hnext =>
            obtain ⟨hcode, hrunning, ⟨g', a, hmoves, hrest⟩, hlinked, hframe⟩ := hnext
            exact ih _ hmoves (hreach.trans hmoves.to_reflTransGen)
              (.entry ⟨hcode, hrunning, ⟨g', a, rfl, hrest⟩, hlinked, hframe⟩)
        | done => exact acc_ended (.inl rfl)
        | aborted => exact acc_ended (.inr rfl)
      cases hcheck with
      | head hhead =>
          -- from the head the guest does not move, but a block is entered, from which it does
          refine Acc.intro _ fun s' hstep => ?_
          refine (hhead.step hstart.supported hstep).acc fun m hm => ?_
          cases hm with
          | head hhead =>
              obtain ⟨-, ⟨_, hfalse, -⟩, -⟩ := hhead
              exact hfalse.elim
          | entry hnext => exact hentry hnext
          | done => exact acc_ended (.inl rfl)
          | aborted => exact acc_ended (.inr rfl)
      | entry hnext => exact hentry hnext
      | done => exact acc_ended (.inl rfl)
      | aborted => exact acc_ended (.inr rfl)

/-- Where every run of the guest is finite, every run of the dispatcher is. -/
theorem dispatcher_terminates (resume : BitVec 64) (code : CodeAt)
    (hstart : Starts env ext sys pos entry g h)
    (hfinite : Acc (fun c' c => GuestMoves (fetched env) ext sys c c') ⟨⟨g, entry⟩, false⟩) :
    Acc (fun s' s => RunStep env sys resume s s') (.initial pos entry code h) := by
  have hfinite' : Acc (fun c' c => Relation.TransGen (GuestMoves (fetched env) ext sys) c c')
      ⟨⟨g, entry⟩, false⟩ := by
    have hflip := hfinite.transGen
    exact Subrelation.accessible (fun {_ _} h => Relation.transGen_swap.1 h) hflip
  obtain ⟨hcode, -, hnoted, hcaller⟩ := hstart.atHead code
  exact hstart.acc_checkpoint hfinite' .refl
    (.head ⟨hcode, ⟨g, rfl, hstart.file⟩, hnoted, hcaller⟩)

theorem dispatcher_terminates_exitCall :
    Acc (fun s' s => RunStep exitEnv exitSys 0#64 s s')
      (.initial (BitVec.ofNat 64 instrMemBase) 0x1000#64 (fun _ => none) exitHost) :=
  dispatcher_terminates 0#64 (fun _ => none) exitStarts (exitCall_finite exitGuest)

end Runs

end RiaJit.Translate
