import RiaJit.Gen.BlockSimulation
import RiaJit.Gen.Fusion

/-!
# The fusion of a memory increment

`emit_pattern_2` of `gen/instr/patterns.c` and what the five instructions that it
replaces do. The fused code adds to the word in memory and leaves every register alone,
but the instructions also write registers.
-/

set_option autoImplicit false

namespace RiaJit.Translate

open EmitLogic X86

/-! ## The emitter -/

/-- `emit_pattern_2`, for the first four of the five instructions. -/
def emitPattern2 (auipc addi lw addiw : RiscInstr) : Gen Unit := do
  invalidateAllReplacements
  let addr := auipc.addr + auipc.imm + addi.imm + lw.imm
  if FeInstr.fitsInt32 addr then
    feEnc64 (.alumi .add .m32 ⟨none, none, addr⟩ addiw.imm)
  else do
    feEnc64 (.mov64ri .ax addr)
    feEnc64 (.alumi .add .m32 ⟨some .ax, none, 0#64⟩ addiw.imm)

/-! ## What the matcher accepts -/

/-- `{p_2_elem, 5, &emit_pattern_2}` of `patterns`. -/
def pattern2 : Pattern := ⟨p2Elem, 5, some .emitPattern2⟩

/-- Five instructions that `p_2_elem` accepts. -/
structure Increment (auipc addi lw addiw sw : RiscInstr) : Prop where
  auipc_mnem : auipc.mnem = .auipc
  addi_mnem : addi.mnem = .addi
  lw_mnem : lw.mnem = .lw
  addiw_mnem : addiw.mnem = .addiw
  sw_mnem : sw.mnem = .sw
  addi_rs1 : addi.regSrc1 = auipc.regDest
  lw_rs1 : lw.regSrc1 = addi.regDest
  addiw_rs1 : addiw.regSrc1 = lw.regDest
  sw_rs1 : sw.regSrc1 = auipc.regDest
  sw_rs2 : sw.regSrc2 = addiw.regDest
  sw_imm : sw.imm = lw.imm

section Matching

variable {block : List RiscInstr} {j : Nat} {auipc addi lw addiw sw : RiscInstr}

/-- Every element of a pattern is matched at its position. -/
theorem matchElements_getElem {es : List PatternElement} {k n : Nat} {e : PatternElement}
    (h : matchElements block j es k = some true) (he : es[n]? = some e) :
    matchElement block j e (k + n) = some true := by
  induction es generalizing k n with
  | nil => exact absurd he nofun
  | cons e' es ih =>
      obtain ⟨hhead, htail⟩ := andAlso_eq_true.1 h
      cases n with
      | zero =>
          obtain rfl := Option.some.inj he
          exact hhead
      | succ n =>
          rw [show k + (n + 1) = k + 1 + n by omega]
          exact ih htail he

theorem isDestOf_eq_true {reg i : Nat} {other : RiscInstr} (hother : block[i]? = some other)
    (h : isDestOf block reg i = some true) : reg = other.regDest := by
  unfold isDestOf at h
  rw [hother] at h
  exact beq_iff_eq.1 (Option.some.inj h)

theorem Occurs.increment (hocc : Occurs block pattern2 j)
    (hentries : (block.drop j).take 5 = [auipc, addi, lw, addiw, sw]) :
    Increment auipc addi lw addiw sw := by
  have hget : ∀ k, k < 5 → block[j + k]? = [auipc, addi, lw, addiw, sw][k]? := fun k hk => by
    rw [← hentries, List.getElem?_take_of_lt hk, List.getElem?_drop]
  have helem : ∀ k e own, k < 5 → [auipc, addi, lw, addiw, sw][k]? = some own →
      p2Elem[k]? = some e → e.mnem = own.mnem ∧ matchRs1 block j e own = some true ∧
        matchRs2 block j e own = some true ∧ matchImm block j e own = some true := by
    intro k e own hk hown he
    obtain ⟨own', hown', hmnem, hrs1, hrs2, -, himm⟩ :=
      matchElement_eq_true.1 (matchElements_getElem hocc he)
    rw [Nat.zero_add, hget k hk, hown] at hown'
    obtain rfl := Option.some.inj hown'
    exact ⟨hmnem, hrs1, hrs2, himm⟩
  obtain ⟨hauipc, -⟩ := helem 0 _ _ (by omega) rfl rfl
  obtain ⟨haddi, hrs1, -⟩ := helem 1 _ _ (by omega) rfl rfl
  obtain ⟨hlw, hrs1', -⟩ := helem 2 _ _ (by omega) rfl rfl
  obtain ⟨haddiw, hrs1'', -⟩ := helem 3 _ _ (by omega) rfl rfl
  obtain ⟨hsw, hbase, hsource, himm⟩ := helem 4 _ _ (by omega) rfl rfl
  refine ⟨hauipc.symm, haddi.symm, hlw.symm, haddiw.symm, hsw.symm,
    isDestOf_eq_true (hget 0 (by omega)) hrs1, isDestOf_eq_true (hget 1 (by omega)) hrs1',
    isDestOf_eq_true (hget 2 (by omega)) hrs1'', isDestOf_eq_true (hget 0 (by omega)) hbase,
    isDestOf_eq_true (hget 3 (by omega)) hsource, ?_⟩
  -- the reference `2` of the store's immediate is the load
  have hother : block[((j : Int) + 2).toNat]? = some lw := by
    rw [show ((j : Int) + 2).toNat = j + 2 by omega]
    exact hget 2 (by omega)
  have himm' : (block[((j : Int) + 2).toNat]?.map fun other => sw.imm == other.imm) = some true :=
    himm
  rw [hother] at himm'
  exact beq_iff_eq.1 (Option.some.inj himm')

end Matching

/-! ## What the instructions do -/

section Meaning

variable (g : GuestState) (auipc addi lw addiw : RiscInstr)

/-- The result of `AUIPC`. -/
def pageValue : BitVec 64 := auipc.addr + auipc.imm

/-- The result of `ADDI`. -/
def pointerValue : BitVec 64 :=
  (if auipc.regDest = x0 then 0#64 else pageValue auipc) + addi.imm

/-- The address of `LW`. -/
def loadAddress : BitVec 64 :=
  (if addi.regDest = x0 then 0#64 else pointerValue auipc addi) + lw.imm

/-- The result of `LW`. -/
def loadedWord : BitVec 64 := g.mem.loadSigned .m32 (loadAddress auipc addi lw)

/-- The result of `ADDIW`. -/
def incremented : BitVec 64 :=
  sext32 ((if lw.regDest = x0 then 0#64 else loadedWord g auipc addi lw).setWidth 32 +
    addiw.imm.setWidth 32)

/-- The value that the last of the instructions that write a register writes; other registers keep
theirs. -/
def lastWritten (x : Nat) : BitVec 64 :=
  if x = addiw.regDest then incremented g auipc addi lw addiw
  else if x = lw.regDest then loadedWord g auipc addi lw
  else if x = addi.regDest then pointerValue auipc addi
  else if x = auipc.regDest then pageValue auipc
  else g.reg x

/-- The address of `SW`, whose base is the destination of `AUIPC`. -/
def storeAddress : BitVec 64 :=
  (if auipc.regDest = x0 then 0#64 else lastWritten g auipc addi lw addiw auipc.regDest) + lw.imm

/-- The value that `SW` stores. -/
def storedValue : BitVec 64 :=
  if addiw.regDest = x0 then 0#64 else incremented g auipc addi lw addiw

/-- The address that the fused code works on. -/
def fusedAddress : BitVec 64 := auipc.addr + auipc.imm + addi.imm + lw.imm

/-- Memory after the fused code. -/
def fusedMemory : Memory :=
  g.mem.store .m32 (fusedAddress auipc addi lw)
    (g.mem.load .m32 (fusedAddress auipc addi lw) + addiw.imm)

end Meaning

section Steps

variable {g : GuestState} {auipc addi lw addiw sw : RiscInstr} {v : BitVec 64} {x : Nat}

theorem read_write (g : GuestState) (d : Nat) (v : BitVec 64) (x : Nat) :
    (g.write d v).read x = if x = x0 then 0#64 else if x = d then v else g.reg x := by
  rw [read_eq]
  by_cases hx0 : x = x0
  · rw [if_pos hx0, if_pos hx0]
  · rw [if_neg hx0, if_neg hx0]
    by_cases hxd : x = d
    · subst hxd
      rw [if_pos rfl, g.write_reg_self hx0]
    · rw [if_neg hxd, g.write_reg_of_ne hxd]

theorem reg_write (g : GuestState) (d : Nat) (v : BitVec 64) {x : Nat} (hx : x ≠ x0) :
    (g.write d v).reg x = if x = d then v else g.reg x := by
  have hread := read_write g d v x
  rwa [read_eq, if_neg hx, if_neg hx] at hread

theorem step_of_aluResult {instr : RiscInstr} (h : instr.aluResult (g.read instr.regSrc1)
    (g.read instr.regSrc2) = some v) : g.step instr = g.write instr.regDest v := by
  unfold GuestState.step
  dsimp only
  rw [h]

/-- The five instructions, one after the other. -/
theorem Increment.stepAll (hinc : Increment auipc addi lw addiw sw) :
    (∀ x, x ≠ x0 → (stepAll [auipc, addi, lw, addiw, sw] g).reg x =
      lastWritten g auipc addi lw addiw x) ∧
    (stepAll [auipc, addi, lw, addiw, sw] g).mem = g.mem.store .m32
      (storeAddress g auipc addi lw addiw) (storedValue g auipc addi lw addiw) := by
  let g₁ := g.write auipc.regDest (pageValue auipc)
  let g₂ := g₁.write addi.regDest (pointerValue auipc addi)
  let g₃ := g₂.write lw.regDest (loadedWord g auipc addi lw)
  let g₄ := g₃.write addiw.regDest (incremented g auipc addi lw addiw)
  have hself : ∀ (g : GuestState) d v, (g.write d v).read d = if d = x0 then 0#64 else v :=
    fun g d v => by rw [read_write, if_pos rfl]
  have h₁ : g.step auipc = g₁ := by
    refine step_of_aluResult ?_
    unfold RiscInstr.aluResult
    rw [hinc.auipc_mnem]
    rfl
  have h₂ : g₁.step addi = g₂ := by
    refine step_of_aluResult ?_
    unfold RiscInstr.aluResult
    rw [hinc.addi_mnem, hinc.addi_rs1, hself]
    rfl
  -- the load still reads the memory of the start
  have hmem₂ : g₂.mem = g.mem := (g₁.write_mem ..).trans (g.write_mem ..)
  have h₃ : g₂.step lw = g₃ := by
    unfold GuestState.step RiscInstr.aluResult RiscInstr.loadResult
    rw [hinc.lw_mnem, hinc.lw_rs1, hself, hmem₂]
    rfl
  have hmem₃ : g₃.mem = g.mem := (g₂.write_mem ..).trans hmem₂
  have h₄ : g₃.step addiw = g₄ := by
    refine step_of_aluResult ?_
    unfold RiscInstr.aluResult
    rw [hinc.addiw_mnem, hinc.addiw_rs1, hself]
    rfl
  have hreg : ∀ x, x ≠ x0 → g₄.reg x = lastWritten g auipc addi lw addiw x := fun x hx => by
    unfold lastWritten
    rw [reg_write _ _ _ hx, reg_write _ _ _ hx, reg_write _ _ _ hx, reg_write _ _ _ hx]
  have hmem₄ : g₄.mem = g.mem := (g₃.write_mem ..).trans hmem₃
  let mem := g.mem.store .m32 (storeAddress g auipc addi lw addiw)
    (storedValue g auipc addi lw addiw)
  have h₅ : g₄.step sw = { g₄ with mem := mem } := by
    -- the base may have been written since, so the address is not the load's in general
    have hbase : g₄.read auipc.regDest + lw.imm = storeAddress g auipc addi lw addiw := by
      unfold storeAddress
      rw [read_eq]
      by_cases hx0 : auipc.regDest = x0
      · rw [if_pos hx0, if_pos hx0]
      · rw [if_neg hx0, if_neg hx0, hreg _ hx0]
    unfold GuestState.step RiscInstr.aluResult RiscInstr.loadResult RiscInstr.storeSize
    rw [hinc.sw_mnem, hinc.sw_rs1, hinc.sw_rs2, hinc.sw_imm, hself]
    dsimp only
    rw [hbase, hmem₄]
    rfl
  have hall : RiaJit.Translate.stepAll [auipc, addi, lw, addiw, sw] g = g₄.step sw := by
    show ((((g.step auipc).step addi).step lw).step addiw).step sw = _
    rw [h₁, h₂, h₃, h₄]
  rw [hall, h₅]
  exact ⟨hreg, rfl⟩

end Steps

/-! ## The fused code -/

section Fused

variable {g g' : GuestState} {r r' : RegisterInfo} {h h' : HostState} {e : Bool}
  {auipc addi lw addiw sw : RiscInstr}

theorem alumi_exec {m : MemOp} {a : BitVec 64} (haddr : h.addr m = a) (imm : BitVec 64) :
    (FeInstr.alumi .add .m32 m imm).exec h =
      some { h with mem := h.mem.store .m32 a (h.mem.load .m32 a + imm) }.clobberFlags := by
  rw [← haddr]
  rfl

variable (auipc addi lw) in
/-- The fused code changes memory and no register. -/
theorem emitPattern2_runs (hrep : Represents x0 g r h) (himm : FeInstr.fitsInt32 addiw.imm = true) :
    ∃ r' h', RunsOn (emitPattern2 auipc addi lw addiw) ⟨r, e⟩ h () ⟨r', e⟩ h' ∧
      Represents x0 { g with mem := fusedMemory g auipc addi lw addiw } r' h' ∧ Outside h h' := by
  obtain ⟨r', h₁, hrun, hrep₁, hout, hempty⟩ := invalidateAllReplacements_runs (e := e) hrep
  let addr := fusedAddress auipc addi lw
  have hstored : ∀ h : HostState, Represents x0 g r' h → Represents x0
      { g with mem := fusedMemory g auipc addi lw addiw } r'
      { h with mem := h.mem.store .m32 addr (h.mem.load .m32 addr + addiw.imm) }.clobberFlags := by
    intro h hrep
    refine ⟨hrep.wf, hrep.regs, ?_⟩
    show h.mem.store _ _ _ = _
    rw [hrep.mem]
    rfl
  by_cases hfits : FeInstr.fitsInt32 addr = true
  · -- the address is a displacement
    have hencodable : (FeInstr.alumi .add .m32 ⟨none, none, addr⟩ addiw.imm).encodable = true := by
      show (FeInstr.fitsInt32 addr && FeInstr.fitsInt32 addiw.imm) = true
      rw [hfits, himm]
      rfl
    have haddr : h₁.addr ⟨none, none, addr⟩ = addr := by
      show 0#64 + 0#64 + addr = addr
      rw [BitVec.zero_add, BitVec.zero_add]
    refine ⟨r', _, .bind hrun ?_, hstored h₁ hrep₁, hout.trans ⟨rfl, rfl, fun _ _ => rfl⟩⟩
    show RunsOn (if FeInstr.fitsInt32 addr then _ else _) _ _ _ _ _
    rw [if_pos hfits]
    exact runs_feEnc64 hencodable (alumi_exec haddr _)
  · -- it is loaded into `AX`, which is empty
    have hencodable : (FeInstr.alumi .add .m32 ⟨some .ax, none, 0#64⟩ addiw.imm).encodable =
      true := by
      show (true && FeInstr.fitsInt32 addiw.imm) = true
      rw [himm]
      rfl
    have haddr : (h₁.setReg .ax addr).addr ⟨some .ax, none, 0#64⟩ = addr := by
      show Function.update h₁.reg .ax addr .ax + 0#64 + 0#64 = addr
      rw [Function.update_self, BitVec.add_zero, BitVec.add_zero]
    have hscratch : Scratches h₁ (h₁.setReg .ax addr) (· = .ax) :=
      (writes_setReg h₁ .ax addr).scratches
    have hrep₂ : Represents x0 g r' (h₁.setReg .ax addr) :=
      hrep₁.overwrite hscratch (fun i _ => hempty i) fun y mapped hmap hax =>
        gpMap_ne_replacement hmap 0 hax
    refine ⟨r', _, .bind hrun ?_, hstored _ hrep₂,
      hout.trans ((hscratch.outside nofun).trans ⟨rfl, rfl, fun _ _ => rfl⟩)⟩
    show RunsOn (if FeInstr.fitsInt32 addr then _ else _) _ _ _ _ _
    rw [if_neg hfits]
    exact .bind (runs_feEnc64 rfl rfl) (runs_feEnc64 hencodable (alumi_exec haddr _))

/-- The fused code has the effect of the instructions: it runs, and the host represents the guest
after them. -/
def FusedMeaning (gen : Gen Unit) (instrs : List RiscInstr) (g : GuestState) (s : GenState)
    (h : HostState) : Prop :=
  ∃ r' h', RunsOn gen s h () ⟨r', s.err⟩ h' ∧ Represents x0 (stepAll instrs g) r' h' ∧ Outside h h'

/-- Where the five instructions do nothing but the increment: each register that they write has
the value already, and `SW` stores the incremented word where `LW` loaded it. -/
structure OnlyIncrements (auipc addi lw addiw : RiscInstr) (g : GuestState) : Prop where
  regs : ∀ x ∈ [auipc.regDest, addi.regDest, lw.regDest, addiw.regDest], x ≠ x0 →
    g.reg x = lastWritten g auipc addi lw addiw x
  word : g.mem.store .m32 (storeAddress g auipc addi lw addiw)
    (storedValue g auipc addi lw addiw) = fusedMemory g auipc addi lw addiw

/-- Values are represented once. -/
theorem Represents.unique (hrep : Represents x0 g r h) (hrep' : Represents x0 g' r h) :
    (∀ x, x ≠ x0 → x < 32 → g.reg x = g'.reg x) ∧ g.mem = g'.mem :=
  ⟨fun x hx hlt => (hrep.regs x hx hx hlt).symm.trans (hrep'.regs x hx hx hlt),
    hrep.mem.symm.trans hrep'.mem⟩

/-- `emit_pattern_2` has the effect of the five instructions exactly where `OnlyIncrements` says
so. -/
theorem emitPattern2_meaning_iff {block : List RiscInstr} {j : Nat}
    (hocc : Occurs block pattern2 j)
    (hentries : (block.drop j).take 5 = [auipc, addi, lw, addiw, sw])
    (hd : ∀ instr ∈ [auipc, addi, lw, addiw, sw], instr.Decoded) (hrep : Represents x0 g r h) :
    FusedMeaning (emitPattern2 auipc addi lw addiw) [auipc, addi, lw, addiw, sw] g ⟨r, e⟩ h ↔
      OnlyIncrements auipc addi lw addiw g := by
  have hinc := hocc.increment hentries
  have hformat : ∀ instr ∈ [auipc, addi, lw, addiw, sw], Format.Fits instr instr.mnem.format := hd
  have hauipc := hformat auipc (by simp)
  have haddi := hformat addi (by simp)
  have hlw := hformat lw (by simp)
  have haddiw := hformat addiw (by simp)
  rw [hinc.auipc_mnem] at hauipc
  rw [hinc.addi_mnem] at haddi
  rw [hinc.lw_mnem] at hlw
  rw [hinc.addiw_mnem] at haddiw
  have himm : FeInstr.fitsInt32 addiw.imm = true := beq_iff_eq.2 haddiw.2.2
  have hregs : ∀ x ∈ [auipc.regDest, addi.regDest, lw.regDest, addiw.regDest], x < 32 := by
    intro x hx
    simp only [List.mem_cons, List.not_mem_nil, or_false] at hx
    rcases hx with rfl | rfl | rfl | rfl
    · exact hauipc
    · exact haddi.2.1
    · exact hlw.2.1
    · exact haddiw.2.1
  obtain ⟨hreg, hmem⟩ := hinc.stepAll (g := g)
  obtain ⟨r', h', hrun, hrep', hout⟩ := emitPattern2_runs (e := e) auipc addi lw hrep himm
  constructor
  · -- the code runs in one way, and a host represents one guest
    rintro ⟨r'', h'', hrun', hrep'', -⟩
    obtain ⟨-, hgen, rfl⟩ := hrun.unique hrun'
    obtain rfl : r' = r'' := congrArg GenState.rInfo hgen
    obtain ⟨hsame, hsameMem⟩ := hrep'.unique hrep''
    refine ⟨fun x hx hx0 => ?_, ?_⟩
    · rw [← hreg x hx0]
      exact hsame x hx0 (hregs x hx)
    · exact hmem.symm.trans hsameMem.symm
  · intro honly
    refine ⟨r', h', hrun, ⟨hrep'.wf, fun x hx0 _ hlt => ?_, ?_⟩, hout⟩
    · rw [hrep'.regs x hx0 hx0 hlt, hreg x hx0]
      by_cases hx : x ∈ [auipc.regDest, addi.regDest, lw.regDest, addiw.regDest]
      · exact honly.regs x hx hx0
      · simp only [List.mem_cons, List.not_mem_nil, or_false, not_or] at hx
        unfold lastWritten
        rw [if_neg hx.2.2.2, if_neg hx.2.2.1, if_neg hx.2.1, if_neg hx.1]
    · rw [hrep'.mem, hmem, honly.word]

end Fused

/-! ## A counter that is incremented -/

/-- `AUIPC x15, 0x1000`. -/
def counterPage : RiscInstr := ⟨0x10000#64, .auipc, .upperImmediate, 0, 0, 15, 0x1000#64⟩

/-- `ADDI x15, x15, 0`. -/
def counterPointer : RiscInstr := ⟨0x10004#64, .addi, .immediate, 15, 0, 15, 0#64⟩

/-- `LW x14, 0(x15)`. -/
def counterLoad : RiscInstr := ⟨0x10008#64, .lw, .immediate, 15, 0, 14, 0#64⟩

/-- `ADDIW x14, x14, 1`. -/
def counterAdd : RiscInstr := ⟨0x1000c#64, .addiw, .immediate, 14, 0, 14, 1#64⟩

/-- `SW x14, 0(x15)`. -/
def counterStore : RiscInstr := ⟨0x10010#64, .sw, .store, 15, 14, 0, 0#64⟩

/-- The five instructions as a block. -/
def counterBlock : List RiscInstr :=
  [counterPage, counterPointer, counterLoad, counterAdd, counterStore]

/-- A host whose registers and slots are zero. -/
def zeroHost : HostState := ⟨fun _ => 0#64, none, fun _ => 0#64, fun _ => 0#8, []⟩

/-- The guest that it represents at the start of a block. -/
def zeroGuest : GuestState := ⟨regValue (TransState.initial 0#64).rInfo zeroHost, fun _ => 0#8⟩

theorem zero_represented : Represents x0 zeroGuest (TransState.initial 0#64).rInfo zeroHost :=
  represents_self (wellFormed_initial 0#64) _

theorem counterBlock_occurs : Occurs counterBlock pattern2 0 := by
  unfold Occurs
  decide

theorem emitPattern2_meaning_iff_counter :
    FusedMeaning (emitPattern2 counterPage counterPointer counterLoad counterAdd) counterBlock
        zeroGuest ⟨(TransState.initial 0#64).rInfo, false⟩ zeroHost ↔
      OnlyIncrements counterPage counterPointer counterLoad counterAdd zeroGuest :=
  emitPattern2_meaning_iff counterBlock_occurs rfl (by decide) zero_represented

/-- The fused code leaves `x15` zero, the instructions leave the address of the counter there. -/
theorem emitPattern2_loses_pointer :
    ¬ ∀ (block : List RiscInstr) (j : Nat) (auipc addi lw addiw sw : RiscInstr) (g : GuestState)
      (r : RegisterInfo) (h : HostState), Occurs block pattern2 j →
      (block.drop j).take 5 = [auipc, addi, lw, addiw, sw] →
      (∀ instr ∈ [auipc, addi, lw, addiw, sw], instr.Decoded) → Represents x0 g r h →
      FusedMeaning (emitPattern2 auipc addi lw addiw) [auipc, addi, lw, addiw, sw] g
        ⟨r, false⟩ h := by
  intro hall
  obtain ⟨r', h', hrun, hrep, -⟩ := hall counterBlock 0 counterPage counterPointer counterLoad
    counterAdd counterStore zeroGuest _ zeroHost counterBlock_occurs rfl
      (by decide) zero_represented
  obtain ⟨r'', h'', hrun', hrep', -⟩ := emitPattern2_runs (e := false) counterPage counterPointer
    counterLoad zero_represented (show FeInstr.fitsInt32 counterAdd.imm = true by decide)
  obtain ⟨-, hgen, rfl⟩ := hrun.unique hrun'
  obtain rfl : r' = r'' := congrArg GenState.rInfo hgen
  have hpointer := (hrep.unique hrep').1 15 (by decide) (by decide)
  exact absurd hpointer (by decide)

end RiaJit.Translate
