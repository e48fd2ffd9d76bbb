import RiaJit.Gen.BlockSimulation
import RiaJit.Gen.IncrementFusion
import RiaJit.Guest.Zicsr

/-!
# Accesses to control and status registers

`translate_csr.c`, for the registers that are kept in `csr_file`: the cell `csr imm` is the
entry at `csr_base + 8 * imm`. The old value is moved to the register of `rd` before `rs1` is
read, which is too late where they share one.
-/

set_option autoImplicit false

namespace RiaJit.Translate

open EmitLogic X86

/-! ## The emitters -/

section Emitters

variable (flags : Flags) (instr : RiscInstr)

/-- `translate_CSRRW`. -/
def translateCSRRW : Gen Unit := do
  let regSrc1 ← getRs1 flags instr
  let regDest ← getRd flags instr
  onlyIf (instr.regDest ≠ x0) (feEnc64 (.mov64rmCell regDest (.csr instr.imm)))
  feEnc64 (.mov64mrCell (.csr instr.imm) regSrc1)

/-- `translate_CSRRS`. -/
def translateCSRRS : Gen Unit := do
  let regSrc1 ← getRs1 flags instr
  let regDest ← getRd flags instr
  feEnc64 (.mov64rmCell regDest (.csr instr.imm))
  onlyIf (instr.regSrc1 ≠ x0) (feEnc64 (.alu64mrCell .or (.csr instr.imm) regSrc1))

/-- `translate_CSRRC`. -/
def translateCSRRC : Gen Unit := do
  let regSrc1 ← getRs1 flags instr
  let regDest ← getRd flags instr
  feEnc64 (.mov64rmCell regDest (.csr instr.imm))
  onlyIf (instr.regSrc1 ≠ x0) do
    feEnc64 (.not64r regSrc1)
    feEnc64 (.alu64mrCell .and (.csr instr.imm) regSrc1)
    feEnc64 (.not64r regSrc1)

/-- `uimm_val`, a `uint8_t`. -/
def uimmVal : BitVec 64 := BitVec.ofNat 64 (instr.regSrc1 % 256)

/-- `translate_CSRRWI`. -/
def translateCSRRWI : Gen Unit := do
  let regDest ← getRd flags instr
  onlyIf (instr.regDest ≠ x0) (feEnc64 (.mov64rmCell regDest (.csr instr.imm)))
  feEnc64 (.mov64miCell (.csr instr.imm) (uimmVal instr))

/-- `translate_CSRRSI`. -/
def translateCSRRSI : Gen Unit := do
  let regDest ← getRd flags instr
  feEnc64 (.mov64rmCell regDest (.csr instr.imm))
  onlyIf (uimmVal instr ≠ 0#64) (feEnc64 (.alu64miCell .or (.csr instr.imm) (uimmVal instr)))

/-- `translate_CSRRCI`. The complement is that of an `int`, extended with its sign. -/
def translateCSRRCI : Gen Unit := do
  let regDest ← getRd flags instr
  feEnc64 (.mov64rmCell regDest (.csr instr.imm))
  onlyIf (uimmVal instr ≠ 0#64) (feEnc64 (.alu64miCell .and (.csr instr.imm) (~~~uimmVal instr)))

end Emitters

/-- The emitters of the six instructions. -/
def csrEmitter : RiscMnem → Option (Flags → RiscInstr → Gen Unit)
  | .csrrw => some translateCSRRW
  | .csrrs => some translateCSRRS
  | .csrrc => some translateCSRRC
  | .csrrwi => some translateCSRRWI
  | .csrrsi => some translateCSRRSI
  | .csrrci => some translateCSRRCI
  | _ => none

/-! ## What the code does -/

/-- One host register and one cell are changed. -/
structure Accesses (h h' : HostState) (R : FeReg) (v : BitVec 64) (c : Cell) (w : BitVec 64) :
    Prop where
  reg : h'.reg = Function.update h.reg R v
  cell : h'.cell = Function.update h.cell c w
  mem : h'.mem = h.mem
  stack : h'.stack = h.stack

/-- What holds besides the registers after an access that leaves `w` in the CSR. -/
structure CsrWritten (instr : RiscInstr) (h h' : HostState) (w : BitVec 64) : Prop where
  value : h'.cell (.csr instr.imm) = w
  stack : h'.stack = h.stack
  sp : h'.reg .sp = h.reg .sp
  cell : ∀ c, ¬ isRegFile c → c ≠ .csr instr.imm → h'.cell c = h.cell c

section Accessed

variable {g : GuestState} {r : RegisterInfo} {h h₁ h' : HostState} {e : Bool} {d : Nat} {R : FeReg}
  {v w : BitVec 64} {c : Cell} {instr : RiscInstr}

/-- Registers are not kept in other cells than those of the register file. -/
theorem Represents.setCell (hrep : Represents d g r h) (hreg : h'.reg = h.reg)
    (hcell : h'.cell = Function.update h.cell c w) (hmem : h'.mem = h.mem) (hc : ∀ x, c ≠ .gp x) :
    Represents d g r h' := by
  refine ⟨hrep.wf, fun y hy hyd hlt => ?_, hmem.trans hrep.mem⟩
  rw [← hrep.regs y hy hyd hlt]
  unfold regValue
  rw [hreg, hcell, Function.update_of_ne (fun heq => hc y heq.symm)]

theorem Accesses.represents (ha : Accesses h h' R v c w) (hrep : Represents d g r h)
    (hloc : Located r R d) (hd : d < 32) (hc : ∀ x, c ≠ .gp x) :
    Represents x0 (g.write d v) r h' :=
  (hrep.write hloc hd (writes_setReg h R v)).setCell ha.reg ha.cell ha.mem hc

theorem Accesses.written (ha : Accesses h₁ h' R v (.csr instr.imm) w) (hout : Outside h h₁)
    (hloc : Located r R d) : CsrWritten instr h h' w := by
  refine ⟨?_, ha.stack.trans hout.stack, ?_, fun c hc hne => ?_⟩
  · rw [ha.cell, Function.update_self]
  · rw [ha.reg, Function.update_of_ne hloc.ne_sp.symm, hout.sp]
  · rw [ha.cell, Function.update_of_ne hne, hout.cell c hc]

/-- Two registers share a host register exactly if they are one guest register. -/
theorem Located.eq_iff {R' : FeReg} {x : Nat} (hwf : r.WellFormed) (hloc' : Located r R' x)
    (hloc : Located r R d) (hd : d < 32) : R' = R ↔ x = d := by
  have hvalid : d ≠ invalidReg := by
    unfold invalidReg
    omega
  constructor
  · rintro rfl
    rcases hloc' with hx | ⟨-, i, hi, hxi⟩
    · rcases hloc with hy | ⟨-, j, hj, -⟩
      · exact gpMap_injective hx hy
      · exact absurd hj (gpMap_ne_replacement hx j)
    · rcases hloc with hy | ⟨-, j, hj, hyj⟩
      · exact absurd hi (gpMap_ne_replacement hy i)
      · rw [← hxi, ← hyj, getRegForIndex_injective (hi.symm.trans hj)]
  · rintro rfl
    rcases hloc' with hx | ⟨hx, i, hi, hxi⟩
    · rcases hloc with hy | ⟨hy, -⟩
      · exact Option.some.inj (hx.symm.trans hy)
      · rw [hx] at hy
        cases hy
    · rcases hloc with hy | ⟨hy, j, hj, hyj⟩
      · rw [hx] at hy
        cases hy
      · have hij := (hwf.find hxi hy hvalid).symm.trans (hwf.find hyj hy hvalid)
        rw [hi, hj, Option.some.inj hij]

/-- A mapped source is taken from where it is mapped. -/
theorem getSrc_mapped (flags : Flags) {x : Nat} {mapped R' : FeReg} {s s' : GenState}
    (hmap : gpMap x = some mapped) (hrun : RunsOn (getSrc flags x) s h R' s' h') :
    R' = mapped := by
  obtain ⟨h₁, hrun₁, -⟩ := recordGpProfiler_runs (h := h) flags x s
  have hown : RunsOn (getSrc flags x) s h mapped s h₁ := by
    refine .bind hrun₁ ?_
    rw [hmap]
    exact Runs.ret _ _ _
  exact (hrun.unique hown).1

theorem Pinned.located {R' : FeReg} {x k : Nat} (hp : Pinned r R' x k)
    (hmapped : ∀ mapped, gpMap x = some mapped → R' = mapped) : Located r R' x := by
  cases hmap : gpMap x with
  | some mapped => exact .inl (by rw [hmapped mapped hmap, hmap])
  | none =>
      rcases hp with hx | ⟨i, hi, hxi, -⟩
      · rw [hmap] at hx
        cases hx
      · exact .inr ⟨hmap, i, hi, hxi⟩

/-! ### The tails -/

theorem accesses_load (h : HostState) (Rd : FeReg) (c : Cell) :
    RunsOn (feEnc64 (.mov64rmCell Rd c)) ⟨r, e⟩ h () ⟨r, e⟩ (h.setReg Rd (h.cell c)) :=
  runs_feEnc64 rfl rfl

/-- The old value is loaded unless the destination is `x0`. -/
theorem loadUnlessX0_runs (instr : RiscInstr) (Rd : FeReg) (h : HostState) :
    ∃ v, RunsOn (onlyIf (instr.regDest ≠ x0) (feEnc64 (.mov64rmCell Rd (.csr instr.imm)))) ⟨r, e⟩ h
        () ⟨r, e⟩ (h.setReg Rd v) ∧ (instr.regDest ≠ x0 → v = h.cell (.csr instr.imm)) ∧
      (instr.regDest = x0 → v = h.reg Rd) := by
  by_cases hx0 : instr.regDest ≠ x0
  · exact ⟨_, runs_onlyIf_pos hx0 (accesses_load h Rd _), fun _ => rfl, fun h => absurd h hx0⟩
  · refine ⟨h.reg Rd, ?_, fun h => absurd h hx0, fun _ => rfl⟩
    have hsame : h.setReg Rd (h.reg Rd) = h := by
      unfold HostState.setReg
      rw [Function.update_eq_self]
    rw [hsame]
    exact runs_onlyIf_neg hx0

/-- What the code after `getRs1` and `getRd` leaves in the CSR, if the source has the value `src`
when the CSR is written. -/
def csrStored (instr : RiscInstr) (old src : BitVec 64) : BitVec 64 :=
  if instr.mnem ≠ .csrrw ∧ instr.regSrc1 = x0 then old else instr.csrResult old src

theorem csrStored_eq (h : instr.mnem = .csrrw ∨ instr.regSrc1 ≠ x0) (old src : BitVec 64) :
    csrStored instr old src = instr.csrResult old src := by
  refine if_neg fun hc => ?_
  rcases h with hmnem | hx0
  · exact hc.1 hmnem
  · exact hx0 hc.2

/-- The code that follows the operands: it loads the CSR and writes it, from `rs1` as that is
then. -/
def CsrTail (instr : RiscInstr) (tail : FeReg → FeReg → Gen Unit) : Prop :=
  ∀ R1 Rd r e h, ∃ h' v, RunsOn (tail R1 Rd) ⟨r, e⟩ h () ⟨r, e⟩ h' ∧
    (instr.regDest ≠ x0 → v = h.cell (.csr instr.imm)) ∧
    (instr.regDest = x0 → instr.mnem = .csrrw → v = h.reg Rd) ∧
    Accesses h h' Rd v (.csr instr.imm) (csrStored instr (h.cell (.csr instr.imm))
      (if R1 = Rd then v else h.reg R1))

theorem setReg_reg (h : HostState) (R R' : FeReg) (v : BitVec 64) :
    (h.setReg R v).reg R' = if R' = R then v else h.reg R' :=
  Function.update_apply ..

theorem csrTail_CSRRW (hmnem : instr.mnem = .csrrw) : CsrTail instr (fun R1 Rd => do
    onlyIf (instr.regDest ≠ x0) (feEnc64 (.mov64rmCell Rd (.csr instr.imm)))
    feEnc64 (.mov64mrCell (.csr instr.imm) R1)) := by
  intro R1 Rd r e h
  obtain ⟨v, hrun, hv, hv'⟩ := loadUnlessX0_runs (r := r) (e := e) instr Rd h
  refine ⟨_, v, .bind hrun (runs_feEnc64 rfl rfl), hv, fun hx0 _ => hv' hx0, rfl, ?_, rfl, rfl⟩
  show Function.update h.cell _ ((h.setReg Rd v).reg R1) = _
  rw [csrStored_eq (.inl hmnem), setReg_reg]
  unfold RiscInstr.csrResult
  rw [hmnem]

theorem csrTail_CSRRS (hmnem : instr.mnem = .csrrs) : CsrTail instr (fun R1 Rd => do
    feEnc64 (.mov64rmCell Rd (.csr instr.imm))
    onlyIf (instr.regSrc1 ≠ x0) (feEnc64 (.alu64mrCell .or (.csr instr.imm) R1))) := by
  intro R1 Rd r e h
  let v := h.cell (.csr instr.imm)
  have hne : instr.mnem ≠ .csrrw := by
    rw [hmnem]
    decide
  by_cases hx0 : instr.regSrc1 ≠ x0
  · refine ⟨_, v, .bind (accesses_load h Rd _) (runs_onlyIf_pos hx0 (runs_feEnc64 rfl rfl)),
      fun _ => rfl, fun _ h => absurd h hne, rfl, ?_, rfl, rfl⟩
    show Function.update h.cell _ (v ||| (h.setReg Rd v).reg R1) = _
    rw [csrStored_eq (.inr hx0), setReg_reg]
    unfold RiscInstr.csrResult
    rw [hmnem]
  · refine ⟨_, v, .bind (accesses_load h Rd _) (runs_onlyIf_neg hx0), fun _ => rfl,
      fun _ h => absurd h hne, rfl, ?_, rfl, rfl⟩
    unfold csrStored
    rw [if_pos ⟨hne, not_not.1 hx0⟩, Function.update_eq_self]
    rfl

theorem csrTail_CSRRC (hmnem : instr.mnem = .csrrc) : CsrTail instr (fun R1 Rd => do
    feEnc64 (.mov64rmCell Rd (.csr instr.imm))
    onlyIf (instr.regSrc1 ≠ x0) do
      feEnc64 (.not64r R1)
      feEnc64 (.alu64mrCell .and (.csr instr.imm) R1)
      feEnc64 (.not64r R1)) := by
  intro R1 Rd r e h
  let v := h.cell (.csr instr.imm)
  have hne : instr.mnem ≠ .csrrw := by
    rw [hmnem]
    decide
  by_cases hx0 : instr.regSrc1 ≠ x0
  · let h₁ := h.setReg Rd v
    let h₂ := h₁.setReg R1 (~~~h₁.reg R1)
    have hself : h₂.reg R1 = ~~~h₁.reg R1 := Function.update_self ..
    refine ⟨_, v, .bind (accesses_load h Rd _) (runs_onlyIf_pos hx0 (.bind (runs_feEnc64 rfl rfl)
      (.bind (runs_feEnc64 rfl rfl) (runs_feEnc64 rfl rfl)))), fun _ => rfl,
      fun _ h => absurd h hne, ?_, ?_, rfl, rfl⟩
    · -- the second complement restores the source
      show Function.update h₂.reg R1 (~~~h₂.reg R1) = h₁.reg
      rw [hself, BitVec.not_not]
      show Function.update (Function.update h₁.reg R1 _) R1 _ = _
      rw [Function.update_idem, Function.update_eq_self]
    · show Function.update h.cell _ (v &&& h₂.reg R1) = _
      rw [hself, csrStored_eq (.inr hx0), setReg_reg]
      unfold RiscInstr.csrResult
      rw [hmnem]
  · refine ⟨_, v, .bind (accesses_load h Rd _) (runs_onlyIf_neg hx0), fun _ => rfl,
      fun _ h => absurd h hne, rfl, ?_, rfl, rfl⟩
    unfold csrStored
    rw [if_pos ⟨hne, not_not.1 hx0⟩, Function.update_eq_self]
    rfl

/-! ### With the operands -/

variable (flags : Flags)

/-- The register forms: where `rs1` is `rd`, the CSR is written from its own old value. -/
theorem CsrTail.runs {tail : FeReg → FeReg → Gen Unit} (ht : CsrTail instr tail)
    (hrs1 : instr.regSrc1 < 32) (hrd : instr.regDest < 32) (hrep : Represents x0 g r h) :
    ∃ r' h', RunsOn (do let R1 ← getRs1 flags instr; let Rd ← getRd flags instr; tail R1 Rd)
        ⟨r, e⟩ h () ⟨r', e⟩ h' ∧
      Represents x0 (g.write instr.regDest (h.cell (.csr instr.imm))) r' h' ∧
      CsrWritten instr h h' (csrStored instr (h.cell (.csr instr.imm))
        (if instr.regSrc1 = instr.regDest ∧ instr.regDest ≠ x0 then h.cell (.csr instr.imm)
          else g.read instr.regSrc1)) := by
  obtain ⟨R1, r₁, h₁, hrun₁, hf₁, ho₁⟩ := getSrc_runs (e := e) flags hrep hrs1
  obtain ⟨Rd, r₂, h₂, hrun₂, hf₂, hloc⟩ := getRd_runs (e := e) flags hf₁.rep hrd
  obtain ⟨hp, hval⟩ := hf₂.operands R1 _ 0 (Nat.zero_le 1) hrs1 ho₁
  obtain ⟨h₃, v, hrun₃, hv, hv', ha⟩ := ht R1 Rd r₂ e h₂
  have hout : Outside h h₂ := hf₁.outside.trans hf₂.outside
  have hold : h₂.cell (.csr instr.imm) = h.cell (.csr instr.imm) := hout.cell _ id
  have hshared : R1 = Rd ↔ instr.regSrc1 = instr.regDest :=
    (hp.located fun mapped hmap => getSrc_mapped flags hmap hrun₁).eq_iff hf₂.rep.wf hloc hrd
  rw [hold] at ha hv
  refine ⟨r₂, h₃, hrun₁.bind (hrun₂.bind hrun₃), ?_, ?_⟩
  · have hrep' := ha.represents hf₂.rep hloc hrd nofun
    by_cases hx0 : instr.regDest = x0
    · rw [hx0, write_x0] at hrep' ⊢
      exact hrep'
    · rwa [hv hx0] at hrep'
  · have hsource : csrStored instr (h.cell (.csr instr.imm)) (if R1 = Rd then v else h₂.reg R1) =
        csrStored instr (h.cell (.csr instr.imm))
          (if instr.regSrc1 = instr.regDest ∧ instr.regDest ≠ x0 then h.cell (.csr instr.imm)
            else g.read instr.regSrc1) := by
      by_cases hsame : instr.regSrc1 = instr.regDest
      · -- the old value of the CSR has come over the source
        rw [if_pos (hshared.2 hsame)]
        by_cases hx0 : instr.regDest = x0
        · rw [if_neg (fun hc => hc.2 hx0)]
          by_cases hrw : instr.mnem = .csrrw
          · rw [hv' hx0 hrw, ← hval, hshared.2 hsame]
          · unfold csrStored
            rw [if_pos ⟨hrw, hsame.trans hx0⟩, if_pos ⟨hrw, hsame.trans hx0⟩]
        · rw [if_pos ⟨hsame, hx0⟩, hv hx0]
      · rw [if_neg (fun hR => hsame (hshared.1 hR)), if_neg (fun hc => hsame hc.1), hval]
    rw [← hsource]
    exact ha.written hout hloc

/-- The immediate forms: the code after `getRd` loads the CSR and then writes `w old`. -/
theorem csrImmediate_runs (w : BitVec 64 → BitVec 64) {tail : FeReg → Gen Unit}
    (hrd : instr.regDest < 32) (hrep : Represents x0 g r h)
    (ht : ∀ Rd r e h, ∃ h' v, RunsOn (tail Rd) ⟨r, e⟩ h () ⟨r, e⟩ h' ∧
      (instr.regDest ≠ x0 → v = h.cell (.csr instr.imm)) ∧
      Accesses h h' Rd v (.csr instr.imm) (w (h.cell (.csr instr.imm)))) :
    ∃ r' h', RunsOn (getRd flags instr >>= tail) ⟨r, e⟩ h () ⟨r', e⟩ h' ∧
      Represents x0 (g.write instr.regDest (h.cell (.csr instr.imm))) r' h' ∧
      CsrWritten instr h h' (w (h.cell (.csr instr.imm))) := by
  obtain ⟨Rd, r₁, h₁, hrun₁, hf₁, hloc⟩ := getRd_runs (e := e) flags hrep hrd
  obtain ⟨h₂, v, hrun₂, hv, ha⟩ := ht Rd r₁ e h₁
  have hold : h₁.cell (.csr instr.imm) = h.cell (.csr instr.imm) := hf₁.outside.cell _ id
  rw [hold] at ha hv
  refine ⟨r₁, h₂, hrun₁.bind hrun₂, ?_, ha.written hf₁.outside hloc⟩
  have hrep' := ha.represents hf₁.rep hloc hrd nofun
  by_cases hx0 : instr.regDest = x0
  · rw [hx0, write_x0] at hrep' ⊢
    exact hrep'
  · rwa [hv hx0] at hrep'

theorem uimmVal_eq (hrs1 : instr.regSrc1 < 32) :
    uimmVal instr = BitVec.ofNat 64 instr.regSrc1 := by
  unfold uimmVal
  rw [Nat.mod_eq_of_lt (by omega)]

/-- Five bits and their complement fit the encoding of an immediate. -/
theorem uimm_fits {n : Nat} (hn : n < 32) :
    FeInstr.fitsInt32 (BitVec.ofNat 64 n) = true ∧
      FeInstr.fitsInt32 (~~~BitVec.ofNat 64 n) = true := by
  have hall : ∀ n, n < 32 → FeInstr.fitsInt32 (BitVec.ofNat 64 n) = true ∧
      FeInstr.fitsInt32 (~~~BitVec.ofNat 64 n) = true := by decide
  exact hall n hn

theorem csrTail_CSRRWI (hrs1 : instr.regSrc1 < 32) (Rd : FeReg) (r : RegisterInfo) (e : Bool)
    (h : HostState) :
    ∃ h' v, RunsOn (do
        onlyIf (instr.regDest ≠ x0) (feEnc64 (.mov64rmCell Rd (.csr instr.imm)))
        feEnc64 (.mov64miCell (.csr instr.imm) (uimmVal instr))) ⟨r, e⟩ h () ⟨r, e⟩ h' ∧
      (instr.regDest ≠ x0 → v = h.cell (.csr instr.imm)) ∧
      Accesses h h' Rd v (.csr instr.imm) (BitVec.ofNat 64 instr.regSrc1) := by
  obtain ⟨v, hrun, hv, -⟩ := loadUnlessX0_runs (r := r) (e := e) instr Rd h
  rw [uimmVal_eq hrs1]
  exact ⟨_, v, .bind hrun (runs_feEnc64 (uimm_fits hrs1).1 rfl), hv, rfl, rfl, rfl, rfl⟩

/-- `translate_CSRRSI` and `translate_CSRRCI`, after `getRd`: no bits are no access. -/
theorem csrTail_bits (op : AluOp) {mask : BitVec 64} (hfits : FeInstr.fitsInt32 mask = true)
    {c : Prop} [Decidable c] (hnone : ¬ c → ∀ old : BitVec 64, op.eval old mask = old) (Rd : FeReg)
    (r : RegisterInfo) (e : Bool) (h : HostState) :
    ∃ h' v, RunsOn (do
        feEnc64 (.mov64rmCell Rd (.csr instr.imm))
        onlyIf c (feEnc64 (.alu64miCell op (.csr instr.imm) mask))) ⟨r, e⟩ h () ⟨r, e⟩ h' ∧
      (instr.regDest ≠ x0 → v = h.cell (.csr instr.imm)) ∧
      Accesses h h' Rd v (.csr instr.imm) (op.eval (h.cell (.csr instr.imm)) mask) := by
  refine ⟨if c then ((h.setReg Rd (h.cell (.csr instr.imm))).setCell (.csr instr.imm)
      (op.eval (h.cell (.csr instr.imm)) mask)).clobberFlags
    else h.setReg Rd (h.cell (.csr instr.imm)), h.cell (.csr instr.imm), ?_, fun _ => rfl, ?_⟩
  · by_cases hc : c
    · rw [if_pos hc]
      exact .bind (accesses_load h Rd _) (runs_onlyIf_pos hc (runs_feEnc64 hfits rfl))
    · rw [if_neg hc]
      exact .bind (accesses_load h Rd _) (runs_onlyIf_neg hc)
  · by_cases hc : c
    · rw [if_pos hc]
      exact ⟨rfl, rfl, rfl, rfl⟩
    · rw [if_neg hc, hnone hc]
      exact ⟨rfl, (Function.update_eq_self ..).symm, rfl, rfl⟩

end Accessed

/-! ## The effect of an access -/

/-- The code has the effect of the access: `rd` receives the old value, the CSR the new one, and
the other registers keep their values. -/
def CsrMeaning (gen : Gen Unit) (instr : RiscInstr) (g : GuestState) (s : GenState)
    (h : HostState) :
    Prop :=
  ∃ r' h', RunsOn gen s h () ⟨r', s.err⟩ h' ∧
    Represents x0 (g.write instr.regDest (h.cell (.csr instr.imm))) r' h' ∧
    CsrWritten instr h h'
      (instr.csrResult (h.cell (.csr instr.imm)) (instr.csrSource g))

/-- Where a register form has this effect: `rs1` is not `rd`, or is `x0`, or its value has the same
effect on the CSR as the old value of the CSR. -/
def SourceKept (instr : RiscInstr) (g : GuestState) (old : BitVec 64) : Prop :=
  instr.mnem ∈ [.csrrw, .csrrs, .csrrc] → instr.regSrc1 = instr.regDest → instr.regDest ≠ x0 →
    instr.csrResult old (g.read instr.regSrc1) = instr.csrResult old old

section Effect

variable (flags : Flags) {g : GuestState} {r : RegisterInfo} {h : HostState} {e : Bool}
  {instr : RiscInstr}

/-- No bits are set or cleared with `x0`. -/
theorem csrStored_read (hmnem : instr.mnem ∈ [.csrrw, .csrrs, .csrrc]) (old : BitVec 64) :
    csrStored instr old (g.read instr.regSrc1) = instr.csrResult old (g.read instr.regSrc1) := by
  by_cases hx0 : instr.regSrc1 = x0
  · by_cases hrw : instr.mnem = .csrrw
    · exact csrStored_eq (.inl hrw) ..
    · have hread : g.read instr.regSrc1 = 0#64 := by
        rw [hx0]
        rfl
      unfold csrStored
      rw [if_pos ⟨hrw, hx0⟩, hread]
      unfold RiscInstr.csrResult
      simp only [List.mem_cons, List.not_mem_nil, or_false] at hmnem
      rcases hmnem with hm | hm | hm
      · exact absurd hm hrw
      · rw [hm]
        exact BitVec.or_zero.symm
      · rw [hm]
        exact (BitVec.and_allOnes).symm
  · exact csrStored_eq (.inr hx0) ..

theorem CsrTail.meaning_iff {tail : FeReg → FeReg → Gen Unit} (ht : CsrTail instr tail)
    (hmnem : instr.mnem ∈ [.csrrw, .csrrs, .csrrc]) (hrs1 : instr.regSrc1 < 32)
    (hrd : instr.regDest < 32) (hrep : Represents x0 g r h) :
    CsrMeaning (do let R1 ← getRs1 flags instr; let Rd ← getRd flags instr; tail R1 Rd) instr g
        ⟨r, e⟩ h ↔
      SourceKept instr g (h.cell (.csr instr.imm)) := by
  obtain ⟨r', h', hrun, hrep', hwritten⟩ := ht.runs (e := e) flags hrs1 hrd hrep
  have hsource : instr.csrSource g = g.read instr.regSrc1 := by
    unfold RiscInstr.csrSource
    simp only [List.mem_cons, List.not_mem_nil, or_false] at hmnem
    rcases hmnem with hm | hm | hm <;> rw [hm]
  constructor
  · rintro ⟨r'', h'', hrun', -, hwritten'⟩ - hsame hx0
    obtain ⟨-, -, rfl⟩ := hrun.unique hrun'
    have hvalue := hwritten.value.symm.trans hwritten'.value
    rw [if_pos ⟨hsame, hx0⟩, csrStored_eq (.inr (by rwa [hsame])), hsource] at hvalue
    exact hvalue.symm
  · intro hkept
    refine ⟨r', h', hrun, hrep', ?_⟩
    rw [hsource]
    by_cases hshared : instr.regSrc1 = instr.regDest ∧ instr.regDest ≠ x0
    · rw [if_pos hshared, csrStored_eq (.inr (by rw [hshared.1]; exact hshared.2)),
        ← hkept hmnem hshared.1 hshared.2] at hwritten
      exact hwritten
    · rw [if_neg hshared, csrStored_read hmnem] at hwritten
      exact hwritten

theorem CsrMeaning.of_immediate {gen : Gen Unit}
    (hmnem : instr.mnem ∉ [.csrrw, .csrrs, .csrrc])
    (hm : CsrMeaning gen instr g ⟨r, e⟩ h) :
    CsrMeaning gen instr g ⟨r, e⟩ h ↔ SourceKept instr g (h.cell (.csr instr.imm)) :=
  iff_of_true hm fun hmem => absurd hmem hmnem

/-- An access has its effect exactly where `SourceKept` says so. -/
theorem csr_meaning_iff {emitter : Flags → RiscInstr → Gen Unit}
    (hcsr : csrEmitter instr.mnem = some emitter) (hrs1 : instr.regSrc1 < 32)
    (hrd : instr.regDest < 32) (hrep : Represents x0 g r h) :
    CsrMeaning (emitter flags instr) instr g ⟨r, e⟩ h ↔
      SourceKept instr g (h.cell (.csr instr.imm)) := by
  have hresult : ∀ m, instr.mnem = m → instr.mnem ∈ [.csrrwi, .csrrsi, .csrrci] →
      instr.csrSource g = BitVec.ofNat 64 instr.regSrc1 := fun m _ hmem => by
    unfold RiscInstr.csrSource
    simp only [List.mem_cons, List.not_mem_nil, or_false] at hmem
    rcases hmem with hm | hm | hm <;> rw [hm]
  cases hmnem : instr.mnem with rw [hmnem] at hcsr
  | csrrw =>
      obtain rfl := Option.some.inj hcsr
      exact (csrTail_CSRRW hmnem).meaning_iff flags (by rw [hmnem]; decide) hrs1 hrd hrep
  | csrrs =>
      obtain rfl := Option.some.inj hcsr
      exact (csrTail_CSRRS hmnem).meaning_iff flags (by rw [hmnem]; decide) hrs1 hrd hrep
  | csrrc =>
      obtain rfl := Option.some.inj hcsr
      exact (csrTail_CSRRC hmnem).meaning_iff flags (by rw [hmnem]; decide) hrs1 hrd hrep
  -- the forms with an immediate have no source register that the old value could overwrite
  | csrrwi =>
      obtain rfl := Option.some.inj hcsr
      refine CsrMeaning.of_immediate (by rw [hmnem]; decide) ?_
      unfold CsrMeaning
      rw [hresult _ hmnem (by rw [hmnem]; decide)]
      unfold RiscInstr.csrResult
      rw [hmnem]
      exact csrImmediate_runs flags (fun _ => BitVec.ofNat 64 instr.regSrc1) hrd hrep
        (csrTail_CSRRWI hrs1)
  | csrrsi =>
      obtain rfl := Option.some.inj hcsr
      refine CsrMeaning.of_immediate (by rw [hmnem]; decide) ?_
      unfold CsrMeaning
      rw [hresult _ hmnem (by rw [hmnem]; decide), ← uimmVal_eq hrs1]
      unfold RiscInstr.csrResult
      rw [hmnem]
      refine csrImmediate_runs flags (fun old => old ||| uimmVal instr) hrd hrep
        (csrTail_bits .or ?_ fun hzero old => ?_)
      · rw [uimmVal_eq hrs1]
        exact (uimm_fits hrs1).1
      · rw [not_not.1 hzero]
        exact BitVec.or_zero
  | csrrci =>
      obtain rfl := Option.some.inj hcsr
      refine CsrMeaning.of_immediate (by rw [hmnem]; decide) ?_
      unfold CsrMeaning
      rw [hresult _ hmnem (by rw [hmnem]; decide), ← uimmVal_eq hrs1]
      unfold RiscInstr.csrResult
      rw [hmnem]
      refine csrImmediate_runs flags (fun old => old &&& ~~~uimmVal instr) hrd hrep
        (csrTail_bits .and ?_ fun hzero old => ?_)
      · rw [uimmVal_eq hrs1]
        exact (uimm_fits hrs1).2
      · rw [not_not.1 hzero]
        exact BitVec.and_allOnes
  | _ => cases hcsr

end Effect

/-! ## A register that is exchanged with a CSR -/

/-- `CSRRW x15, 0x340, x15`. -/
def csrSwap : RiscInstr := ⟨0x10000#64, .csrrw, .system, 15, 0, 15, 0x340#64⟩

/-- A host with one in the register of `x15`. -/
def swapHost : HostState := zeroHost.setReg .bx 1#64

/-- The guest that it represents. -/
def swapGuest : GuestState := ⟨regValue (TransState.initial 0#64).rInfo swapHost, fun _ => 0#8⟩

theorem swap_represented : Represents x0 swapGuest (TransState.initial 0#64).rInfo swapHost :=
  represents_self (wellFormed_initial 0#64) _

theorem csr_meaning_iff_swap :
    CsrMeaning (translateCSRRW {} csrSwap) csrSwap swapGuest
        ⟨(TransState.initial 0#64).rInfo, false⟩ swapHost ↔
      SourceKept csrSwap swapGuest (swapHost.cell (.csr csrSwap.imm)) :=
  csr_meaning_iff {} rfl (by decide) (by decide) swap_represented

/-- The CSR keeps its old value zero where it should become one. -/
theorem csrSwap_keeps_old :
    ¬ ∀ (flags : Flags) (instr : RiscInstr) (emitter : Flags → RiscInstr → Gen Unit)
      (g : GuestState) (r : RegisterInfo) (h : HostState), csrEmitter instr.mnem = some emitter →
      instr.regSrc1 < 32 → instr.regDest < 32 → Represents x0 g r h →
      CsrMeaning (emitter flags instr) instr g ⟨r, false⟩ h := by
  intro hall
  obtain ⟨r', h', hrun, -, hwritten⟩ := hall {} csrSwap _ swapGuest _ swapHost rfl (by decide)
    (by decide) swap_represented
  have htail := csrTail_CSRRW (show csrSwap.mnem = .csrrw from rfl)
  obtain ⟨r'', h'', hrun', -, hwritten'⟩ := htail.runs (e := false) {} (by decide) (by decide)
    swap_represented
  obtain ⟨-, -, rfl⟩ := hrun.unique hrun'
  exact absurd (hwritten.value.symm.trans hwritten'.value) (by decide)

end RiaJit.Translate
