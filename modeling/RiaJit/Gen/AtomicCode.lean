import RiaJit.Gen.Atomics
import RiaJit.Gen.PairOperands

/-!
# The code of atomic memory operations

What is left of an atomic operation once its operands are in registers works on the word at the
address of `rs1`, the stack pointer and the host register of `rd`.
-/

set_option autoImplicit false

namespace RiaJit

open EmitLogic X86

/-! ## Values in memory -/

namespace Memory

/-- Only the low bytes of a value are stored. -/
theorem store_congr {mem : Memory} {size : MemSize} {a v v' : BitVec 64}
    (h : v.setWidth (8 * size.bytes) = v'.setWidth (8 * size.bytes)) :
    mem.store size a v = mem.store size a v' := by
  funext x
  by_cases hin : (x - a).toNat < size.bytes
  · rw [store_inside hin, store_inside hin]
    apply BitVec.eq_of_getLsbD_eq
    intro i hi
    have hbit := congrArg (fun v => v.getLsbD (8 * (x - a).toNat + i)) h
    simp only [BitVec.getLsbD_setWidth] at hbit
    have hlow : 8 * (x - a).toNat + i < 8 * size.bytes := by omega
    simp only [hlow, decide_true, Bool.true_and] at hbit
    simp only [BitVec.getLsbD_setWidth, BitVec.getLsbD_ushiftRight, hbit]
  · rw [store_apart (Nat.not_lt.1 hin), store_apart (Nat.not_lt.1 hin)]

/-- A doubleword has nothing left to extend. -/
theorem loadSigned_m64 (mem : Memory) (a : BitVec 64) :
    mem.loadSigned .m64 a = mem.load .m64 a := by
  show ((mem.load .m64 a).setWidth 64).signExtend 64 = _
  rw [BitVec.signExtend_eq, BitVec.setWidth_eq]

end Memory

theorem MemSize.bits_le (size : MemSize) : 8 * size.bytes ≤ 64 := by
  cases size with
  | m8 | m16 | m32 | m64 => decide

theorem AmoFunction.apply_low (f : AmoFunction) (size : MemSize) (old src : BitVec 64) :
    (f.apply size old src).setWidth (8 * size.bytes) =
      f.eval (old.setWidth (8 * size.bytes)) (src.setWidth (8 * size.bytes)) := by
  unfold AmoFunction.apply
  rw [BitVec.setWidth_setWidth_of_le _ size.bits_le, BitVec.setWidth_eq]

namespace Translate

section Code

variable {g : GuestState} {r : RegisterInfo} {h h' : HostState} {d : Nat} {R : FeReg}

/-! ## The host beside the guest's registers -/

/-- The representation depends on the stack pointer and on other variables no more than on the
flags; the guest's memory is the host's. -/
theorem Represents.beside (hrep : Represents d g r h) (hreg : ∀ Q, Q ≠ .sp → h'.reg Q = h.reg Q)
    (hcell : ∀ y, y < 32 → h'.cell (.gp y) = h.cell (.gp y)) :
    Represents d { g with mem := h'.mem } r h' := by
  refine ⟨hrep.wf, fun y hy hyd hlt => ?_, rfl⟩
  show regValue r h' y = g.reg y
  rw [← hrep.regs y hy hyd hlt]
  cases hmap : gpMap y with
  | some mapped =>
      rw [regValue_mapped hmap, regValue_mapped hmap]
      exact hreg mapped (gpMap_ne_sp hmap)
  | none =>
      cases hfind : r.find y with
      | some i =>
          rw [regValue_held hmap hfind, regValue_held hmap hfind]
          exact hreg _ (getRegForIndex_ne_sp i)
      | none =>
          rw [regValue_slot hmap hfind, regValue_slot hmap hfind]
          exact hcell y hlt

/-- Where a register of the guest lies the stack pointer does not. -/
theorem Pinned.ne_sp {x k : Nat} (hp : Pinned r R x k) : R ≠ .sp := by
  rcases hp with hmap | ⟨i, rfl, -⟩
  · exact gpMap_ne_sp hmap
  · exact getRegForIndex_ne_sp i

/-! ## The end of an operation -/

/-- The host while the old value is in the stack pointer: memory has been changed, the stack
pointer lies in the scratch slot. -/
structure Scratched (h : HostState) (mem : Memory) (old : BitVec 64) (h' : HostState) : Prop where
  reg : ∀ Q, Q ≠ .sp → h'.reg Q = h.reg Q
  sp : h'.reg .sp = old
  cell : h'.cell = Function.update h.cell swapScratch (h.reg .sp)
  mem : h'.mem = mem
  stack : h'.stack = h.stack

/-- The value that is delivered. -/
theorem moveOld_computes {size : MemSize} (hsize : size = .m32 ∨ size = .m64) {mem : Memory}
    {a : BitVec 64} (hold : h.reg .sp = mem.load size a) :
    Computes (moveOld size R) h R (mem.loadSigned size a) := by
  -- a word is sign extended, a doubleword is moved
  rcases hsize with rfl | rfl
  · refine (computes_movsx R scratchReg).cast ?_
    show sext32 ((h.reg .sp).setWidth 32) = _
    rw [hold]
    rfl
  · refine (computes_movrr .s64 R scratchReg).cast ?_
    show h.reg .sp = _
    rw [hold, Memory.loadSigned_m64]

/-- The old value is moved to `rd` and the stack pointer is brought back. -/
theorem amoEnd_runs {instr : RiscInstr} {size : MemSize} (hsize : size = .m32 ∨ size = .m64)
    (hrd : instr.regDest < 32) (hrep : Represents instr.regDest g r h)
    (hloc : Located r R instr.regDest) {mem : Memory} {a : BitVec 64}
    (hs : Scratched h mem (g.mem.load size a) h') (e : Bool) :
    ∃ h'', RunsOn (do deliverOld instr size R; loadScratchReg scratchReg) ⟨r, e⟩ h' () ⟨r, e⟩ h'' ∧
      Represents x0 ({ g with mem := mem }.write instr.regDest (g.mem.loadSigned size a)) r h'' ∧
      Beside h h'' := by
  have hgp : ∀ {k : HostState}, k.cell = Function.update h.cell swapScratch (h.reg .sp) →
      ∀ c, c ≠ swapScratch → k.cell c = h.cell c := fun hk c hc => by
    rw [hk, Function.update_of_ne hc]
  have hslot : ∀ {k : HostState}, k.cell = Function.update h.cell swapScratch (h.reg .sp) →
      k.cell swapScratch = h.reg .sp := fun hk => by
    rw [hk, Function.update_self]
  -- the host before `rd` is written, but with its stack pointer again
  let k : HostState := h'.setReg .sp (h.reg .sp)
  have hrep' : Represents instr.regDest { g with mem := mem } r k := by
    have hmem : k.mem = mem := hs.mem
    rw [← hmem]
    apply hrep.beside
    · intro Q hQ
      exact (Function.update_of_ne hQ ..).trans (hs.reg Q hQ)
    · intro y _
      exact hgp hs.cell _ (by simp [swapScratch])
  have hbeside : ∀ {k' : HostState}, k'.reg .sp = h.reg .sp → k'.cell = h'.cell →
      k'.stack = h'.stack → Beside h k' := fun hsp hcell hstack =>
    ⟨hstack.trans hs.stack, hsp, fun c _ hc => hgp (hcell.trans hs.cell) c hc⟩
  -- for `x0` the stack pointer is brought back and nothing else
  by_cases hx0 : instr.regDest = x0
  · refine ⟨k, .bind (runs_onlyIf_neg fun h => h hx0) (runs_feEnc64 rfl ?_), ?_, ?_⟩
    · show some (h'.setReg .sp (h'.cell swapScratch)) = _
      rw [hslot hs.cell]
    · rw [hx0] at hrep' ⊢
      rw [write_x0]
      exact hrep'
    · exact hbeside (h'.reg_setReg_self _ _) rfl rfl
  · obtain ⟨h₁, hrun₁, hw⟩ := moveOld_computes (R := R) hsize hs.sp ⟨r, e⟩
    have hcell₁ : h₁.cell = Function.update h.cell swapScratch (h.reg .sp) := hw.cell.trans hs.cell
    have hne : R ≠ .sp := hloc.ne_sp
    have hwrites : Writes k (h₁.setReg .sp (h.reg .sp)) R (g.mem.loadSigned size a) := by
      refine ⟨?_, hw.cell, hw.mem, hw.stack⟩
      show Function.update h₁.reg .sp (h.reg .sp) =
        Function.update (Function.update h'.reg .sp (h.reg .sp)) R _
      rw [hw.reg, Function.update_comm hne]
    refine ⟨h₁.setReg .sp (h.reg .sp), .bind (runs_onlyIf_pos hx0 hrun₁) (runs_feEnc64 rfl ?_),
      hrep'.write hloc hrd hwrites, ?_⟩
    · show some (h₁.setReg .sp (h₁.cell swapScratch)) = _
      rw [hslot hcell₁]
    · exact hbeside (h₁.reg_setReg_self _ _) hw.cell hw.stack

end Code

/-! ## Accesses at the address in a register -/

theorem exec_movrm_memAt (size : MemSize) (dst R : FeReg) (h : HostState) :
    (FeInstr.movrm size dst (memAt R 0#64)).exec h =
      some (h.setReg dst (h.mem.load size (h.reg R))) := by
  show some (h.setReg dst (h.mem.load size (h.addr (memAt R 0#64)))) = _
  rw [addr_memAt, BitVec.add_zero]

theorem exec_movmr_memAt (size : MemSize) (R src : FeReg) (h : HostState) :
    (FeInstr.movmr size (memAt R 0#64) src).exec h =
      some { h with mem := h.mem.store size (h.reg R) (h.reg src) } := by
  show some { h with mem := h.mem.store size (h.addr (memAt R 0#64)) (h.reg src) } = _
  rw [addr_memAt, BitVec.add_zero]

/-! ## The instruction that modifies memory -/

/-- An instruction that replaces a word in memory by `f` of it and a register. -/
structure Modifies (f : AmoFunction) (size : MemSize) (modify : MemOp → FeReg → FeInstr) :
    Prop where
  encodable : ∀ m R, FeInstr.fitsInt32 m.off = true → (modify m R).encodable = true
  exec : ∀ m R h, ∃ flags', (modify m R).exec h = some { h with
    mem := h.mem.store size (h.addr m) (f.apply size (h.mem.load size (h.addr m)) (h.reg R))
    flags := flags' }

/-- `AMOSWAP` is a move. -/
theorem modifies_swap (size : MemSize) : Modifies .swap size (.movmr size) := by
  refine ⟨fun m R hoff => hoff, fun m R h => ⟨h.flags, ?_⟩⟩
  have hsame : h.mem.store size (h.addr m) (h.reg R) = h.mem.store size (h.addr m)
      (AmoFunction.swap.apply size (h.mem.load size (h.addr m)) (h.reg R)) :=
    Memory.store_congr (AmoFunction.swap.apply_low size _ _).symm
  rw [← hsame]
  rfl

/-- The other operations are instructions of the host. They work on all 64 bits of the register,
of which only the low part matters. -/
theorem modifies_alu {f : AmoFunction} {op : AluOp} (size : MemSize)
    (hlow : ∀ (a b : BitVec 64), (op.eval a b).setWidth (8 * size.bytes) =
      f.eval (a.setWidth (8 * size.bytes)) (b.setWidth (8 * size.bytes))) :
    Modifies f size (.alumr op size) := by
  refine ⟨fun m R hoff => hoff, fun m R h => ⟨none, ?_⟩⟩
  have hsame : h.mem.store size (h.addr m) (op.eval (h.mem.load size (h.addr m)) (h.reg R)) =
      h.mem.store size (h.addr m) (f.apply size (h.mem.load size (h.addr m)) (h.reg R)) :=
    Memory.store_congr ((hlow _ _).trans (f.apply_low size _ _).symm)
  rw [← hsame]
  rfl

theorem modifies_add (size : MemSize) : Modifies .add size (.alumr .add size) :=
  modifies_alu size fun a b => BitVec.setWidth_add a b size.bits_le

theorem modifies_xor (size : MemSize) : Modifies .xor size (.alumr .xor size) :=
  modifies_alu size fun _ _ => BitVec.setWidth_xor

theorem modifies_and (size : MemSize) : Modifies .and size (.alumr .and size) :=
  modifies_alu size fun _ _ => BitVec.setWidth_and

theorem modifies_or (size : MemSize) : Modifies .or size (.alumr .or size) :=
  modifies_alu size fun _ _ => BitVec.setWidth_or

/-! ## The operations -/

section Operations

variable (flags : Flags) {instr : RiscInstr}

/-- The operations that modify memory in one instruction are performed in every state of the
register cache. -/
theorem translateAmo_performs {f : AmoFunction} {size : MemSize}
    {modify : MemOp → FeReg → FeInstr} (hsize : size = .m32 ∨ size = .m64)
    (hmodify : Modifies f size modify) (hrs1 : instr.regSrc1 < 32) (hrs2 : instr.regSrc2 < 32)
    (hrd : instr.regDest < 32) :
    Performs (translateAmo flags instr size modify) (instr.amo f size) := by
  intro g r h e hrep
  obtain ⟨R1, r₁, h₁, hrun₁, hf₁, ho₁⟩ := getSrc_runs (e := e) flags hrep hrs1
  obtain ⟨R2, r₂, h₂, hrun₂, hf₂, ho₂⟩ := getSrc_runs (e := e) flags hf₁.rep hrs2
  obtain ⟨Rd, r₃, h₃, hrun₃, hf₃, hloc⟩ := getRd_runs (e := e) flags hf₂.rep hrd
  obtain ⟨hpin₁, hval₁⟩ := hf₃.operands R1 _ 1 (Nat.le_refl 1) hrs1
    (hf₂.operands R1 _ 0 (Nat.zero_le 1) hrs1 ho₁)
  obtain ⟨hpin₂, hval₂⟩ := hf₃.operands R2 _ 0 (Nat.zero_le 1) hrs2 ho₂
  -- the old value, and the word in memory replaced
  let k₁ : HostState := h₃.setCell swapScratch (h₃.reg .sp)
  let k₂ : HostState := k₁.setReg .sp (g.mem.load size (g.read instr.regSrc1))
  have hload : (FeInstr.movrm size scratchReg (memAt R1 0#64)).exec k₁ = some k₂ := by
    rw [exec_movrm_memAt]
    show some (k₁.setReg .sp (h₃.mem.load size (h₃.reg R1))) = _
    rw [hf₃.rep.mem, hval₁]
  have hreg₁ : k₂.reg R1 = g.read instr.regSrc1 :=
    (k₁.reg_setReg_of_ne hpin₁.ne_sp _).trans hval₁
  have hreg₂ : k₂.reg R2 = g.read instr.regSrc2 :=
    (k₁.reg_setReg_of_ne hpin₂.ne_sp _).trans hval₂
  have hmem : k₂.mem = g.mem := hf₃.rep.mem
  obtain ⟨flags', hstore⟩ := hmodify.exec (memAt R1 0#64) R2 k₂
  rw [addr_memAt, BitVec.add_zero, hreg₁, hreg₂, hmem] at hstore
  have hs : Scratched h₃ (g.mem.store size (g.read instr.regSrc1) (f.apply size
      (g.mem.load size (g.read instr.regSrc1)) (g.read instr.regSrc2)))
      (g.mem.load size (g.read instr.regSrc1)) { k₂ with mem := _, flags := flags' } :=
    ⟨fun Q hQ => k₁.reg_setReg_of_ne hQ _, k₁.reg_setReg_self .sp _, rfl, rfl, rfl⟩
  obtain ⟨h', hrun', hrep', hbeside⟩ := amoEnd_runs hsize hrd hf₃.rep hloc hs e
  exact ⟨r₃, h', hrun₁.bind (hrun₂.bind (hrun₃.bind (.bind (runs_feEnc64 rfl rfl)
      (.bind (runs_feEnc64 rfl hload)
        (.bind (runs_feEnc64 (hmodify.encodable _ _ rfl) hstore) hrun'))))), hrep',
    (hf₁.outside.trans (hf₂.outside.trans hf₃.outside)).beside.trans hbeside⟩

/-! ### Load-reserved and store-conditional -/

theorem translateLRW_simulates (hrs1 : instr.regSrc1 < 32) (hrd : instr.regDest < 32) :
    Simulates (translateLRW flags instr) (instr.loadReserved .m32) := by
  apply simulates_rs1_rd (fun mem a => mem.loadSigned .m32 a) hrs1 hrd
  intro R1 Rd h
  have hexec : (FeInstr.movsxm .m32 Rd (memAt R1 0#64)).exec h =
      some (h.setReg Rd (h.mem.loadSigned .m32 (h.reg R1))) := by
    show some (h.setReg Rd (h.mem.loadSigned .m32 (h.addr (memAt R1 0#64)))) = _
    rw [addr_memAt, BitVec.add_zero]
  exact computes_feEnc64 rfl hexec (writes_setReg ..)

theorem translateLRD_simulates (hrs1 : instr.regSrc1 < 32) (hrd : instr.regDest < 32) :
    Simulates (translateLRD flags instr) (instr.loadReserved .m64) := by
  apply simulates_rs1_rd (fun mem a => mem.loadSigned .m64 a) hrs1 hrd
  intro R1 Rd h
  have hexec : (FeInstr.movrm .m64 Rd (memAt R1 0#64)).exec h =
      some (h.setReg Rd (h.mem.loadSigned .m64 (h.reg R1))) := by
    rw [exec_movrm_memAt, Memory.loadSigned_m64]
  exact computes_feEnc64 rfl hexec (writes_setReg ..)

/-- A store-conditional stores and reports success, as is right with the reservation held. -/
theorem storeAndSucceed_simulates {size : MemSize} (hrs1 : instr.regSrc1 < 32)
    (hrs2 : instr.regSrc2 < 32) (hrd : instr.regDest < 32) :
    Simulates (storeAndSucceed flags instr size) (instr.storeConditional size true) := by
  intro g r h e hrep
  obtain ⟨R1, r₁, h₁, hrun₁, hf₁, ho₁⟩ := getSrc_runs (e := e) flags hrep hrs1
  obtain ⟨R2, r₂, h₂, hrun₂, hf₂, ho₂⟩ := getSrc_runs (e := e) flags hf₁.rep hrs2
  obtain ⟨Rd, r₃, h₃, hrun₃, hf₃, hloc⟩ := getRd_runs (e := e) flags hf₂.rep hrd
  have hval₁ : h₃.reg R1 = g.read instr.regSrc1 := (hf₃.operands R1 _ 1 (Nat.le_refl 1) hrs1
    (hf₂.operands R1 _ 0 (Nat.zero_le 1) hrs1 ho₁)).2
  have hval₂ : h₃.reg R2 = g.read instr.regSrc2 :=
    (hf₃.operands R2 _ 0 (Nat.zero_le 1) hrs2 ho₂).2
  -- the word is stored before `rd` is written, which may be `rs1` or `rs2`
  let k : HostState :=
    { h₃ with mem := g.mem.store size (g.read instr.regSrc1) (g.read instr.regSrc2) }
  have hstore : (FeInstr.movmr size (memAt R1 0#64) R2).exec h₃ = some k := by
    rw [exec_movmr_memAt, hval₁, hval₂, hf₃.rep.mem]
  have hrep' : Represents instr.regDest { g with mem := k.mem } r₃ k :=
    hf₃.rep.beside (fun _ _ => rfl) fun _ _ => rfl
  have hw : Writes k (k.setReg Rd 0#64) Rd 0#64 := writes_setReg ..
  exact ⟨r₃, _, hrun₁.bind (hrun₂.bind (hrun₃.bind (.bind (runs_feEnc64 rfl hstore)
      (runs_feEnc64 rfl rfl)))), hrep'.write hloc hrd hw,
    (hf₁.outside.trans (hf₂.outside.trans hf₃.outside)).trans
      ((Outside.of_mem h₃ _).trans (hw.outside hloc))⟩

/-! ### Products -/

theorem computes_imulrr {h : HostState} (size : OpSize) (dst src : FeReg) :
    Computes (feEnc64 (.imulrr size dst src)) h dst
      (sized size (fun a b => a * b) (h.reg dst) (h.reg src)) :=
  computes_feEnc64 rfl rfl (writes_setReg ..).clobberFlags

/-- The product of the operands, wherever they lie. -/
theorem computes_doMultiply {h : HostState} (size : OpSize) (R1 R2 Rd : FeReg) :
    Computes (doMultiply size R1 R2 Rd) h Rd
      (sized size (fun a b => a * b) (h.reg R1) (h.reg R2)) := by
  unfold doMultiply
  -- a source that lies where `rd` does is the factor that is overwritten
  split
  · rename_i h1
    rw [h1]
    exact computes_imulrr size R1 R2
  · split
    · rename_i h2
      rw [h2, sized_comm (fun a b => BitVec.mul_comm a b)]
      exact computes_imulrr size R2 R1
    · rename_i h2
      refine (computes_movrr .s64 Rd R1).bind fun h' hw => (computes_imulrr size Rd R2).cast ?_
      rw [hw.self, hw.other (Ne.symm h2)]
      rfl

theorem translateMUL_simulates (hrs1 : instr.regSrc1 < 32) (hrs2 : instr.regSrc2 < 32)
    (hrd : instr.regDest < 32) : Simulates (translateMUL flags instr) (instr.product .m64) := by
  apply simulates_rs1_rs2_rd (fun a b => a * b) hrs1 hrs2 hrd
  intro R1 R2 Rd h
  exact computes_doMultiply .s64 R1 R2 Rd

theorem translateMULW_simulates (hrs1 : instr.regSrc1 < 32) (hrs2 : instr.regSrc2 < 32)
    (hrd : instr.regDest < 32) : Simulates (translateMULW flags instr) (instr.product .m32) := by
  apply simulates_rs1_rs2_rd (fun a b => sext32 (a.setWidth 32 * b.setWidth 32)) hrs1 hrs2 hrd
  intro R1 R2 Rd h
  refine (computes_doMultiply .s32 R1 R2 Rd).signExtend.cast ?_
  rw [setWidth_sized]

end Operations

end Translate

end RiaJit
