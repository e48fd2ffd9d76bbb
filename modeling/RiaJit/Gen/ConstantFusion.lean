import RiaJit.Gen.Patterns

/-!
# The fusions of addresses, constants and shifts

Patterns whose instructions work on one destination one after the other. The fused code
computes the last value and writes it once.
-/

set_option autoImplicit false

namespace RiaJit.Translate

open EmitLogic X86

/-! ## Instructions that work on one destination -/

/-- The second instruction reads and writes the destination of the first one. -/
structure Accumulates (a b : RiscInstr) : Prop where
  rs1 : b.regSrc1 = a.regDest
  rd : b.regDest = a.regDest

section Accumulation

variable {a b : RiscInstr} {g : GuestState} {v : BitVec 64}

/-- Of two writes to a register the second one counts. -/
theorem write_write (g : GuestState) (d : Nat) (v w : BitVec 64) :
    (g.write d v).write d w = g.write d w := by
  by_cases hd : d = x0
  · subst hd
    simp only [write_x0]
  · unfold GuestState.write
    simp only [if_neg hd, Function.update_idem]

/-- A value that is computed from the destination. -/
theorem Accumulates.write (hacc : Accumulates a b) {f : Memory → BitVec 64 → BitVec 64}
    (hb : ∀ g : GuestState, g.step b = g.write b.regDest (f g.mem (g.read b.regSrc1))) :
    (g.write a.regDest v).step b = g.write a.regDest (f g.mem v) := by
  rw [hb, hacc.rs1, hacc.rd, write_write, GuestState.write_mem, read_write]
  by_cases hx0 : a.regDest = x0
  · rw [hx0, write_x0, write_x0]
  · rw [if_neg hx0, if_pos rfl]

/-- The second instruction works on the result of the first, in the same register. -/
theorem Accumulates.step (hacc : Accumulates a b) {f : BitVec 64 → BitVec 64}
    (hb : ∀ x y, b.aluResult x y = some (f x)) :
    (g.write a.regDest v).step b = g.write a.regDest (f v) :=
  hacc.write (f := fun _ => f) (step_alu hb)

end Accumulation

/-! ## Addresses -/

section Addresses

variable {flags : Flags} {g : GuestState} {r : RegisterInfo} {h : HostState} {e : Bool} {d : Nat}
  {R : FeReg} {auipc access : RiscInstr} {load : FeReg → MemOp → FeInstr}
  {val : Memory → BitVec 64 → BitVec 64} {addr : BitVec 64}

/-- What the instruction of a load does. -/
def LoadsInto (load : FeReg → MemOp → FeInstr) (val : Memory → BitVec 64 → BitVec 64) : Prop :=
  ∀ R m h, (load R m).encodable = FeInstr.fitsInt32 m.off ∧
    (load R m).exec h = some (h.setReg R (val h.mem (h.addr m)))

/-- What represents the guest represents it but for any one register. -/
theorem Represents.forget (hrep : Represents x0 g r h) : Represents d g r h :=
  ⟨hrep.wf, fun y hy _ hlt => hrep.regs y hy hy hlt, hrep.mem⟩

/-- A load from an absolute address. -/
theorem LoadsInto.computes (hload : LoadsInto load val) (hfits : FeInstr.fitsInt32 addr = true)
    (R : FeReg) (h : HostState) :
    Computes (feEnc64 (load R ⟨none, none, addr⟩)) h R (val h.mem addr) := by
  obtain ⟨henc, hexec⟩ := hload R ⟨none, none, addr⟩ h
  have haddr : h.addr ⟨none, none, addr⟩ = addr := by
    show 0#64 + 0#64 + addr = addr
    rw [BitVec.zero_add, BitVec.zero_add]
  rw [haddr] at hexec
  exact computes_feEnc64 (henc.trans hfits) hexec (writes_setReg ..)

/-- A register stays where it is, when another replacement is taken. -/
theorem Located.note {i : Fin 3} (hloc : Located r R d) (hne : R ≠ getRegForIndex i)
    (content recency : Nat) : Located (r.note i content recency) R d := by
  rcases hloc with hmap | ⟨hmap, j, rfl, hj⟩
  · exact .inl hmap
  · have hji : j ≠ i := fun h => hne (by rw [h])
    refine .inr ⟨hmap, j, rfl, ?_⟩
    rw [RegisterInfo.note_content_of_ne hji, hj]

/-- The replacement for the address is written back before it is used. -/
theorem LoadsInto.loadThrough_runs (hload : LoadsInto load val) (hrep : Represents d g r h)
    (hloc : Located r R d) (hd : d < 32) {i : Fin 3} (hne : R ≠ getRegForIndex i) :
    ∃ r' h', RunsOn (loadThrough load addr i R) ⟨r, e⟩ h () ⟨r', e⟩ h' ∧
      Represents x0 (g.write d (val g.mem addr)) r' h' ∧ Outside h h' := by
  let h₁ := writtenBack r h i
  let h₂ := h₁.setReg (getRegForIndex i) addr
  let h₃ := h₂.setReg R (val g.mem addr)
  have hrep₁ : Represents d g (r.note i invalidReg 0) h₁ := hrep.invalidate i
  have hscratch : Scratches h₁ h₂ (· = getRegForIndex i) := (writes_setReg ..).scratches
  have hrep₂ : Represents d g (r.note i invalidReg 0) h₂ := by
    refine hrep₁.overwrite hscratch (fun j hj => ?_) fun y mapped hmap hi => ?_
    · rw [getRegForIndex_injective hj, RegisterInfo.note_content_self]
    · exact gpMap_ne_replacement hmap i hi
  have hw : Writes h₂ h₃ R (val g.mem addr) := writes_setReg ..
  have hloc' := hloc.note hne invalidReg 0
  have hexec : (load R (memAt (getRegForIndex i) 0#64)).exec h₂ = some h₃ := by
    have haddr : h₂.addr (memAt (getRegForIndex i) 0#64) = addr := by
      rw [addr_memAt, BitVec.add_zero]
      exact Function.update_self ..
    rw [(hload R _ h₂).2, haddr, hrep₂.mem]
  refine ⟨_, h₃, .bind (invalidateReplacement_runs r h e i) (.bind (runs_feEnc64 rfl rfl)
    (runs_feEnc64 ((hload R _ h₂).1.trans rfl) hexec)), hrep₂.write hloc' hd hw, ?_⟩
  exact (frame_writtenBack hrep.wf i).outside.trans
    ((hscratch.outside (getRegForIndex_ne_sp i).symm).trans (hw.outside hloc'))

/-- The value is loaded from the sum of the address and both immediates. -/
theorem simulates_loadAbsolute (hload : LoadsInto load val) (hrd : access.regDest < 32) :
    Simulates (loadAbsolute flags load auipc access) fun g =>
      g.write access.regDest (val g.mem (auipc.addr + auipc.imm + access.imm)) := by
  intro g r h e hrep
  let addr := auipc.addr + auipc.imm + access.imm
  unfold loadAbsolute
  cases hmap : gpMap access.regDest with
  | some mapped =>
      dsimp only
      have hloc : Located r mapped access.regDest := .inl hmap
      by_cases hfits : FeInstr.fitsInt32 addr = true
      · obtain ⟨h', hrun, hw⟩ := hload.computes hfits mapped h ⟨r, e⟩
        rw [hrep.mem] at hw
        rw [if_pos hfits]
        exact ⟨r, h', hrun, hrep.forget.write hloc hrd hw, hw.outside hloc⟩
      · rw [if_neg hfits]
        exact hload.loadThrough_runs hrep.forget hloc hrd (gpMap_ne_replacement hmap 0)
  | none =>
      obtain ⟨R, r₁, h₁, hrun₁, hf₁, hloc⟩ := getRd_runs (e := e) flags hrep hrd
      have htail : ∃ r' h',
          RunsOn (if FeInstr.fitsInt32 addr then feEnc64 (load R ⟨none, none, addr⟩)
          else if R ≠ .ax then loadThrough load addr 0 R else loadThrough load addr 2 R)
          ⟨r₁, e⟩ h₁ () ⟨r', e⟩ h' ∧
          Represents x0 (g.write access.regDest (val g.mem addr)) r' h' ∧ Outside h₁ h' := by
        by_cases hfits : FeInstr.fitsInt32 addr = true
        · obtain ⟨h', hrun, hw⟩ := hload.computes hfits R h₁ ⟨r₁, e⟩
          rw [hf₁.rep.mem] at hw
          rw [if_pos hfits]
          exact ⟨r₁, h', hrun, hf₁.rep.write hloc hrd hw, hw.outside hloc⟩
        · rw [if_neg hfits]
          -- the address goes to `AX`, or to `CX` where `AX` is the destination
          by_cases hax : R ≠ .ax
          · rw [if_pos hax]
            exact hload.loadThrough_runs hf₁.rep hloc hrd hax
          · rw [if_neg hax]
            refine hload.loadThrough_runs hf₁.rep hloc hrd ?_
            rw [not_not.1 hax]
            exact nofun
      obtain ⟨r', h', hrun, hrep', hout⟩ := htail
      exact ⟨r', h', hrun₁.bind hrun, hrep', hf₁.outside.trans hout⟩

/-- The loads with sign extension. -/
theorem loadsInto_movsxm (size : MemSize) :
    LoadsInto (.movsxm size) fun mem a => mem.loadSigned size a := fun _ _ _ => ⟨rfl, rfl⟩

/-- The loads without. -/
theorem loadsInto_movrm (size : MemSize) :
    LoadsInto (.movrm size) fun mem a => mem.load size a := fun _ _ _ => ⟨rfl, rfl⟩

end Addresses

/-! ## The fused code -/

section Fused

variable (flags : Flags) {a b c : RiscInstr}

/-- `AUIPC` and `ADDI` are one constant. -/
theorem simulates_emitPattern3 (ha : a.mnem = .auipc) (hb : b.mnem = .addi)
    (hacc : Accumulates a b) (hrd : a.regDest < 32) :
    Simulates (emitPattern3 flags a b) (stepAll [a, b]) := by
  have hfirst : ∀ x y, a.aluResult x y = some (a.addr + a.imm) := fun x y => by
    unfold RiscInstr.aluResult
    rw [ha]
  have hsecond : ∀ x y, b.aluResult x y = some (x + b.imm) := fun x y => by
    unfold RiscInstr.aluResult
    rw [hb]
  have hall : stepAll [a, b] = fun g => g.write b.regDest (a.addr + a.imm + b.imm) := by
    funext g
    show (g.step a).step b = _
    rw [step_alu hfirst, hacc.step hsecond, hacc.rd]
  rw [hall]
  unfold emitPattern3 onlyIf
  by_cases hx0 : b.regDest = x0
  · rw [if_neg (not_not.2 hx0), hx0]
    have hnone : (fun g : GuestState => g.write x0 (a.addr + a.imm + b.imm)) = id :=
      funext fun g => write_x0 g _
    rw [hnone]
    exact Simulates.ret
  · rw [if_pos hx0]
    exact simulates_rd (by rwa [hacc.rd]) fun Rd h => computes_feEnc64 rfl rfl (writes_setReg ..)

/-- `AUIPC` and a load are a load from a constant address. -/
theorem simulates_loadFusion {load : FeReg → MemOp → FeInstr}
    {val : Memory → BitVec 64 → BitVec 64} (hload : LoadsInto load val) (ha : a.mnem = .auipc)
    (halu : ∀ x y, b.aluResult x y = none)
    (hval : ∀ mem x, b.loadResult mem x = some (val mem x)) (hacc : Accumulates a b)
    (hrd : a.regDest < 32) : Simulates (loadAbsolute flags load a b) (stepAll [a, b]) := by
  have hfirst : ∀ x y, a.aluResult x y = some (a.addr + a.imm) := fun x y => by
    unfold RiscInstr.aluResult
    rw [ha]
  have hall : stepAll [a, b] = fun g =>
      g.write b.regDest (val g.mem (a.addr + a.imm + b.imm)) := by
    funext g
    show (g.step a).step b = _
    rw [step_alu hfirst,
      hacc.write (f := fun mem x => val mem (x + b.imm)) (step_load halu hval), hacc.rd]
  rw [hall]
  exact simulates_loadAbsolute hload (by rwa [hacc.rd])

/-- `AUIPC` and `LW`. -/
theorem simulates_emitPattern4 (ha : a.mnem = .auipc) (hb : b.mnem = .lw)
    (hacc : Accumulates a b) (hrd : a.regDest < 32) :
    Simulates (emitPattern4 flags a b) (stepAll [a, b]) := by
  refine simulates_loadFusion flags (loadsInto_movsxm .m32) ha (fun x y => ?_) (fun mem x => ?_)
    hacc hrd
  · unfold RiscInstr.aluResult
    rw [hb]
  · unfold RiscInstr.loadResult
    rw [hb]

/-- `AUIPC` and `LD`. -/
theorem simulates_emitPattern5 (ha : a.mnem = .auipc) (hb : b.mnem = .ld)
    (hacc : Accumulates a b) (hrd : a.regDest < 32) :
    Simulates (emitPattern5 flags a b) (stepAll [a, b]) := by
  refine simulates_loadFusion flags (loadsInto_movrm .m64) ha (fun x y => ?_) (fun mem x => ?_)
    hacc hrd
  · unfold RiscInstr.aluResult
    rw [hb]
  · unfold RiscInstr.loadResult
    rw [hb]

/-! ### Shifts -/

/-- A left shift by 32 bits followed by a right shift works on the lower half. -/
theorem shiftPair_small (v : BitVec 64) {n : Nat} (hn : n < 32) :
    (v <<< 32) >>> n = (v.setWidth 32).setWidth 64 <<< (32 - n) := by
  apply BitVec.eq_of_getLsbD_eq
  intro i hi
  rw [BitVec.getLsbD_ushiftRight, BitVec.getLsbD_shiftLeft, BitVec.getLsbD_shiftLeft,
    BitVec.getLsbD_setWidth, BitVec.getLsbD_setWidth]
  by_cases hlow : i < 32 - n
  · have hlow' : n + i < 32 := by omega
    simp [hlow, hlow']
  · have hbit : n + i - 32 = i - (32 - n) := by omega
    have hge : ¬ n + i < 32 := by omega
    have hwidth : (n + i < 64) = (i - (32 - n) < 32) := by
      apply propext
      omega
    have h64 : i - (32 - n) < 64 := by omega
    simp [hlow, hge, hi, h64, hbit, hwidth]

/-- Shifts by 32 to the left and further to the right are a shift of the low half. -/
theorem shiftPair_large (v : BitVec 64) {n : Nat} (hn : 32 ≤ n) :
    (v <<< 32) >>> n = (v.setWidth 32 >>> (n - 32)).setWidth 64 := by
  apply BitVec.eq_of_getLsbD_eq
  intro i hi
  rw [BitVec.getLsbD_ushiftRight, BitVec.getLsbD_shiftLeft, BitVec.getLsbD_setWidth,
    BitVec.getLsbD_ushiftRight, BitVec.getLsbD_setWidth]
  have hbit : n + i - 32 = n - 32 + i := by omega
  have hge : ¬ n + i < 32 := by omega
  have hwidth : (n + i < 64) = (n - 32 + i < 32) := by
    apply propext
    omega
  simp [hge, hi, hbit, hwidth]

/-- Shifts by 32 to the left and to the right clear the upper half. -/
theorem zeroExtend_eq (v : BitVec 64) :
    (v <<< 32) >>> 32 = sized .s32 (fun a _ => a) v 0#64 := by
  rw [shiftPair_large v (Nat.le_refl 32)]
  rfl

/-- Where `emit_pattern_6` does not ask for a register, it takes the one that is mapped. -/
theorem emitPattern6_eq (slli srli : RiscInstr) :
    ∃ flags₁ flags₂, emitPattern6 flags slli srli = (do
      let R ← getSrc flags₁ slli.regSrc1
      let Rd ← getRd flags₂ srli
      feEnc64 (.movrr .s32 Rd R)) := by
  let quiet : Flags := { flags with doProfile := false }
  have hsrc : ∀ mapped, gpMap slli.regSrc1 = some mapped →
      getSrc quiet slli.regSrc1 = pure mapped := fun mapped hmap => by
    unfold getSrc
    rw [hmap]
    rfl
  have hdest : ∀ mapped, gpMap srli.regDest = some mapped →
      getRd quiet srli = pure mapped := fun mapped hmap => by
    unfold getRd
    rw [hmap]
    rfl
  -- where a register is mapped, the emitter takes its host register without the profiler
  unfold emitPattern6
  cases hs : gpMap slli.regSrc1 with
  | some source =>
      cases hd : gpMap srli.regDest with
      | some dest =>
          refine ⟨quiet, quiet, ?_⟩
          rw [hsrc source hs, hdest dest hd]
          rfl
      | none =>
          refine ⟨quiet, flags, ?_⟩
          rw [hsrc source hs]
          rfl
  | none =>
      cases hd : gpMap srli.regDest with
      | some dest =>
          refine ⟨flags, quiet, ?_⟩
          rw [hdest dest hd]
          rfl
      | none => exact ⟨flags, flags, rfl⟩

/-- A move in 32 bits does what the two shifts do. -/
theorem simulates_zeroExtend (hrs1 : a.regSrc1 < 32) (hrd : b.regDest < 32) :
    Simulates (emitPattern6 flags a b) fun g =>
      g.write b.regDest ((g.read a.regSrc1 <<< 32) >>> 32) := by
  obtain ⟨flags₁, flags₂, heq⟩ := emitPattern6_eq flags a b
  rw [heq]
  refine simulates_source_rd (fun _ v => (v <<< 32) >>> 32) hrs1 hrd fun R Rd h => ?_
  rw [zeroExtend_eq]
  exact computes_movrr .s32 Rd R

theorem step_slli (ha : a.mnem = .slli) (x y : BitVec 64) :
    a.aluResult x y = some (x <<< a.imm.toNat) := by
  unfold RiscInstr.aluResult
  rw [ha]

theorem step_srli (hb : b.mnem = .srli) (x y : BitVec 64) :
    b.aluResult x y = some (x >>> b.imm.toNat) := by
  unfold RiscInstr.aluResult
  rw [hb]

/-- What the guest computes with two shifts. -/
theorem stepAll_shifts (ha : a.mnem = .slli) (hb : b.mnem = .srli) (hacc : Accumulates a b)
    (g : GuestState) :
    stepAll [a, b] g = g.write a.regDest ((g.read a.regSrc1 <<< a.imm.toNat) >>> b.imm.toNat) := by
  show (g.step a).step b = _
  rw [step_alu (step_slli ha), hacc.step (step_srli hb)]

/-- `SLLI` and `SRLI` by 32 are a move in 32 bits. -/
theorem simulates_emitPattern6 (ha : a.mnem = .slli) (hb : b.mnem = .srli)
    (hacc : Accumulates a b) (himm : a.imm = 32#64) (himm' : b.imm = 32#64)
    (hrs1 : a.regSrc1 < 32) (hrd : a.regDest < 32) :
    Simulates (emitPattern6 flags a b) (stepAll [a, b]) := by
  have hall : stepAll [a, b] = fun g =>
      g.write b.regDest ((g.read a.regSrc1 <<< 32) >>> 32) := by
    funext g
    rw [stepAll_shifts ha hb hacc, himm, himm', hacc.rd]
    rfl
  rw [hall]
  exact simulates_zeroExtend flags hrs1 (by rwa [hacc.rd])

/-- The low half is moved, and shifted by what is left of the second amount. -/
theorem computes_shiftExtended {imm : BitVec 64} (himm : imm.toNat < 64) (R Rd : FeReg)
    (h : HostState) :
    Computes (do feEnc64 (.movrr .s32 Rd R); shiftExtended imm Rd) h Rd
      ((h.reg R <<< 32) >>> imm.toNat) := by
  refine (computes_movrr .s32 Rd R).bind fun h' hw => ?_
  have hself : h'.reg Rd = ((h.reg R).setWidth 32).setWidth 64 := hw.self
  have hslt : imm.slt 32#64 = decide (imm.toNat < 32) := by
    rw [BitVec.slt_eq_decide, BitVec.toInt_eq_toNat_of_lt (by omega)]
    apply decide_eq_decide.2
    show (imm.toNat : Int) < 32 ↔ _
    omega
  unfold shiftExtended
  rw [hslt]
  -- the move has cleared the upper half, so the two shifts leave one of the difference
  by_cases hsmall : imm.toNat < 32
  · rw [decide_eq_true hsmall, if_pos rfl]
    refine (computes_shiftri .shl .s64 Rd _).cast ?_
    have hcount : (32#64 - imm).toNat % 64 = 32 - imm.toNat := by
      rw [BitVec.toNat_sub]
      show (2 ^ 64 - imm.toNat + 32) % 2 ^ 64 % 64 = _
      omega
    show h'.reg Rd <<< ((32#64 - imm).toNat % 64) = _
    rw [hcount, hself, shiftPair_small _ hsmall]
  · rw [decide_eq_false hsmall, if_neg Bool.false_ne_true]
    refine (computes_shiftri .shr .s32 Rd _).cast ?_
    have hcount : (imm - 32#64).toNat % 32 = imm.toNat - 32 := by
      rw [BitVec.toNat_sub]
      show (2 ^ 64 - 32 + imm.toNat) % 2 ^ 64 % 32 = _
      omega
    show ((h'.reg Rd).setWidth 32 >>> ((imm - 32#64).toNat % 32)).setWidth 64 = _
    rw [hcount, hself, shiftPair_large _ (by omega),
      BitVec.setWidth_setWidth_of_le _ (by decide), BitVec.setWidth_eq]

/-- `SLLI` by 32 and `SRLI` by any amount. -/
theorem simulates_emitPattern21 (ha : a.mnem = .slli) (hb : b.mnem = .srli)
    (hacc : Accumulates a b) (himm : a.imm = 32#64) (himm' : b.imm.toNat < 64)
    (hrs1 : a.regSrc1 < 32) (hrd : a.regDest < 32) :
    Simulates (emitPattern21 flags a b) (stepAll [a, b]) := by
  have hall : stepAll [a, b] = fun g =>
      g.write a.regDest ((g.read a.regSrc1 <<< 32) >>> b.imm.toNat) := by
    funext g
    rw [stepAll_shifts ha hb hacc, himm]
    rfl
  rw [hall]
  exact simulates_rs1_rd (fun _ v => (v <<< 32) >>> b.imm.toNat) hrs1 hrd
    fun R Rd h => computes_shiftExtended himm' R Rd h

/-! ### Additions in 32 bits -/

theorem step_addiw (ha : a.mnem = .addiw) (x y : BitVec 64) :
    a.aluResult x y = some (sext32 (x.setWidth 32 + a.imm.setWidth 32)) := by
  unfold RiscInstr.aluResult
  rw [ha]

/-- Extending by the sign changes none of the low bits. -/
theorem setWidth_sext32 (v : BitVec 32) {n : Nat} (hn : n ≤ 32) :
    (sext32 v).setWidth n = v.setWidth n := by
  apply BitVec.eq_of_getLsbD_eq
  intro i hi
  have h32 : i < 32 := by omega
  have h64 : i < 64 := by omega
  unfold sext32
  rw [BitVec.getLsbD_setWidth, BitVec.getLsbD_signExtend, BitVec.getLsbD_setWidth]
  simp [hi, h32, h64]

/-- `ADDIW` and the two shifts are a sum in 32 bits. -/
theorem simulates_emitPattern7 (ha : a.mnem = .addiw) (hb : b.mnem = .slli) (hc : c.mnem = .srli)
    (hab : Accumulates a b) (hac : Accumulates a c) (himm : b.imm = 32#64) (himm' : c.imm = 32#64)
    (hrs1 : a.regSrc1 < 32) (hrd : a.regDest < 32) (hfits : FeInstr.fitsInt32 a.imm = true) :
    Simulates (emitPattern7 flags a) (stepAll [a, b, c]) := by
  have hall : stepAll [a, b, c] = fun g => g.write a.regDest
      (((g.read a.regSrc1).setWidth 32 + a.imm.setWidth 32).setWidth 64) := by
    funext g
    show ((g.step a).step b).step c = _
    rw [step_alu (step_addiw ha), hab.step (step_slli hb), hac.step (step_srli hc), himm, himm']
    refine congrArg _ ((zeroExtend_eq _).trans ?_)
    show ((sext32 _).setWidth 32).setWidth 64 = _
    rw [setWidth_sext32 _ (Nat.le_refl 32), BitVec.setWidth_eq]
  rw [hall]
  refine simulates_rs1_rd (fun _ v => (v.setWidth 32 + a.imm.setWidth 32).setWidth 64) hrs1 hrd
    fun R Rd h => ?_
  obtain ⟨v, hv, heq⟩ := computes_moveUnlessSameW (h := h) R Rd
  refine hv.bind fun h' hw => (computes_aluri .add .s32 Rd hfits).cast ?_
  show ((h'.reg Rd).setWidth 32 + a.imm.setWidth 32).setWidth 64 = _
  rw [hw.self, heq]

/-- A sum in 32 bits that only needs its low byte. -/
theorem computes_addByte {imm : BitVec 64} (hfits : FeInstr.fitsInt32 imm = true) (R Rd : FeReg)
    (h : HostState) :
    Computes (addByte imm R Rd) h Rd (((h.reg R).setWidth 32 + imm.setWidth 32).setWidth 64) := by
  unfold addByte
  by_cases hne : R ≠ Rd
  · rw [if_pos hne]
    refine Computes.cast (computes_feEnc64 hfits rfl (writes_setReg ..)) ?_
    rw [addr_memAt]
    show ((h.reg R + imm).setWidth 32).setWidth 64 = _
    rw [setWidth_add]
  · rw [if_neg hne]
    obtain rfl := not_not.1 hne
    exact computes_aluri .add .s32 R hfits

/-- The low byte of a value, by a conjunction and by a zero extension. -/
theorem and_byte (v : BitVec 64) : v &&& 0xff#64 = (v.setWidth 8).setWidth 64 := by
  apply BitVec.eq_of_getLsbD_eq
  intro i hi
  have hmask : (0xff#64).getLsbD i = decide (i < 8) := by
    have hall : ∀ i, i < 64 → (0xff#64).getLsbD i = decide (i < 8) := by decide
    exact hall i hi
  rw [BitVec.getLsbD_and, hmask, BitVec.getLsbD_setWidth, BitVec.getLsbD_setWidth]
  simp [hi, Bool.and_comm]

theorem step_andi (hb : b.mnem = .andi) (x y : BitVec 64) :
    b.aluResult x y = some (x &&& b.imm) := by
  unfold RiscInstr.aluResult
  rw [hb]

/-- `ADDIW` and `ANDI` with 255 are the low byte of a sum. -/
theorem simulates_emitPattern23 (ha : a.mnem = .addiw) (hb : b.mnem = .andi)
    (hacc : Accumulates a b) (himm : b.imm = 0xff#64) (hrs1 : a.regSrc1 < 32)
    (hrd : a.regDest < 32) (hfits : FeInstr.fitsInt32 a.imm = true) :
    Simulates (emitPattern23 flags a) (stepAll [a, b]) := by
  have hbyte : ∀ v : BitVec 32, sext32 v &&& 0xff#64 = (v.setWidth 8).setWidth 64 := fun v => by
    rw [and_byte, setWidth_sext32 v (by decide)]
  have hall : stepAll [a, b] = fun g => g.write a.regDest
      ((((g.read a.regSrc1).setWidth 32 + a.imm.setWidth 32).setWidth 8).setWidth 64) := by
    funext g
    show (g.step a).step b = _
    rw [step_alu (step_addiw ha), hacc.step (step_andi hb), himm, hbyte]
  rw [hall]
  refine simulates_rs1_rd
    (fun _ v => ((v.setWidth 32 + a.imm.setWidth 32).setWidth 8).setWidth 64) hrs1 hrd
    fun R Rd h => ?_
  have hlow : ∀ v : BitVec 32, (v.setWidth 64).setWidth 8 = v.setWidth 8 := fun v =>
    BitVec.setWidth_setWidth_of_le v (by decide)
  refine (computes_addByte hfits R Rd h).bind fun h' hw => (computes_movzx Rd Rd).cast ?_
  rw [hw.self, hlow]

/-! ### Constants -/

/-- `LUI` and `ADDI` are one constant. -/
theorem simulates_emitPattern19LI (ha : a.mnem = .lui) (hb : b.mnem = .addi)
    (hacc : Accumulates a b) (hrd : a.regDest < 32) :
    Simulates (emitPattern19LI flags a b) (stepAll [a, b]) := by
  have hfirst : ∀ x y, a.aluResult x y = some a.imm := fun x y => by
    unfold RiscInstr.aluResult
    rw [ha]
  have hsecond : ∀ x y, b.aluResult x y = some (x + b.imm) := fun x y => by
    unfold RiscInstr.aluResult
    rw [hb]
  have hall : stepAll [a, b] = fun g => g.write a.regDest (a.imm + b.imm) := by
    funext g
    show (g.step a).step b = _
    rw [step_alu hfirst, hacc.step hsecond]
  rw [hall]
  exact simulates_rd hrd fun Rd h => computes_feEnc64 rfl rfl (writes_setReg ..)

end Fused

/-! ## Every match -/

section Matches

variable {block : List RiscInstr} {j : Nat} {g : GuestState} {r : RegisterInfo} {h : HostState}
  {e : Bool}

/-- The first element of a pattern whose instructions work on one destination. -/
def startElem (mnem : RiscMnem) (imm : Nat) (immValue : Int) : PatternElement :=
  ⟨mnem, dontCare, dontCare, dontCare, 0, 0, imm, immValue⟩

/-- The elements after it. -/
def onDestElem (mnem : RiscMnem) (imm : Nat) (immValue : Int) : PatternElement :=
  ⟨mnem, rdH1, dontCare, rdH1, 0, 0, imm, immValue⟩

/-- What an element says about the immediate on its own. -/
theorem imm_of_match {block : List RiscInstr} {j : Nat} {elem : PatternElement} {own : RiscInstr}
    (h : matchImm block j elem own = some true) (hone : elem.imm = 1) :
    own.imm = BitVec.ofInt 64 elem.immValue := by
  unfold matchImm at h
  rw [hone] at h
  exact beq_iff_eq.1 (Option.some.inj h)

/-- The instruction that an element of a match stands for. -/
theorem Occurs.element {p : Pattern} (hocc : Occurs block p j) (hwf : p.WellFormed) {k : Nat}
    {elem : PatternElement} (helem : p.elements[k]? = some elem) {instr : RiscInstr}
    (hinstr : (window block p j)[k]? = some instr) :
    elem.mnem = instr.mnem ∧ matchRs1 (window block p j) 0 elem instr = some true ∧
      matchRs2 (window block p j) 0 elem instr = some true ∧
      matchRd (window block p j) 0 elem instr = some true ∧
      matchImm (window block p j) 0 elem instr = some true := by
  have hall := hocc.within hwf
  unfold Occurs matchPattern at hall
  rw [← hwf.len, List.take_length] at hall
  obtain ⟨own, hown, hrest⟩ := matchElement_eq_true.1 (matchElements_getElem hall helem)
  rw [Nat.zero_add, Nat.zero_add, hinstr] at hown
  obtain rfl := Option.some.inj hown
  exact hrest

/-- An instruction of a match that works on the destination of the first one. -/
theorem Occurs.onDest {p : Pattern} (hocc : Occurs block p j) (hwf : p.WellFormed) {k : Nat}
    {mnem : RiscMnem} {imm : Nat} {immValue : Int}
    (helem : p.elements[k]? = some (onDestElem mnem imm immValue)) {a b : RiscInstr}
    (ha : (window block p j)[0]? = some a) (hb : (window block p j)[k]? = some b) :
    b.mnem = mnem ∧ Accumulates a b ∧ (imm = 1 → b.imm = BitVec.ofInt 64 immValue) := by
  obtain ⟨hmnem, hrs1, -, hrd, himm⟩ := hocc.element hwf helem hb
  exact ⟨hmnem.symm, ⟨isDestOf_eq_true ha hrs1, isDestOf_eq_true ha hrd⟩, imm_of_match himm⟩

/-- The first instruction of an occurrence has the mnemonic and the immediate that the pattern
fixes. -/
theorem Occurs.start {p : Pattern} (hocc : Occurs block p j) (hwf : p.WellFormed)
    {mnem : RiscMnem} {imm : Nat} {immValue : Int}
    (helem : p.elements[0]? = some (startElem mnem imm immValue)) {a : RiscInstr}
    (ha : (window block p j)[0]? = some a) :
    a.mnem = mnem ∧ (imm = 1 → a.imm = BitVec.ofInt 64 immValue) := by
  obtain ⟨hmnem, -, -, -, himm⟩ := hocc.element hwf helem ha
  exact ⟨hmnem.symm, imm_of_match himm⟩

theorem decoded_upper {instr : RiscInstr} (hd : instr.Decoded)
    (hformat : instr.mnem.format = some .upper) : instr.regDest < 32 := by
  unfold RiscInstr.Decoded at hd
  rwa [hformat] at hd

/-- The operands of a decoded instruction with an immediate are in range. -/
theorem decoded_immediate {instr : RiscInstr} (hd : instr.Decoded)
    (hformat : instr.mnem.format = some .immediate) :
    instr.regSrc1 < 32 ∧ instr.regDest < 32 ∧ FeInstr.fitsInt32 instr.imm = true := by
  unfold RiscInstr.Decoded at hd
  rw [hformat] at hd
  exact ⟨hd.1, hd.2.1, hd.2.2.fits⟩

/-- So are those of a decoded shift. -/
theorem decoded_shift {instr : RiscInstr} (hd : instr.Decoded)
    (hformat : instr.mnem.format = some (.shift 64)) :
    instr.regSrc1 < 32 ∧ instr.regDest < 32 ∧ instr.imm.toNat < 64 := by
  unfold RiscInstr.Decoded at hd
  rwa [hformat] at hd

/-- The emitters of the patterns of addresses, constants and shifts. -/
def constantEmitters : List PatternEmitter :=
  [.emitPattern3, .emitPattern4, .emitPattern5, .emitPattern6, .emitPattern21, .emitPattern7,
    .emitPattern19LI, .emitPattern23]

/-- A pattern of two instructions on one destination. -/
theorem pair_meaning (flags : Flags) {p : Pattern} (hp : p ∈ patterns) {em : PatternEmitter}
    {m₁ m₂ : RiscMnem} {i₁ i₂ : Nat} {v₁ v₂ : Int}
    (helems : p.elements = [startElem m₁ i₁ v₁, onDestElem m₂ i₂ v₂]) (hocc : Occurs block p j)
    (hd : ∀ instr ∈ window block p j, instr.Decoded)
    {emit : RiscInstr → RiscInstr → Gen Unit}
    (hemit : ∀ a b, emitPattern flags em [a, b] = some (emit a b))
    (hs : ∀ a b : RiscInstr, a.mnem = m₁ → b.mnem = m₂ → Accumulates a b →
      (i₁ = 1 → a.imm = BitVec.ofInt 64 v₁) → (i₂ = 1 → b.imm = BitVec.ofInt 64 v₂) → a.Decoded →
      b.Decoded → Simulates (emit a b) (stepAll [a, b]))
    (hrep : Represents x0 g r h) :
    ∃ gen, emitPattern flags em (window block p j) = some gen ∧
      FusedMeaning gen (window block p j) g ⟨r, e⟩ h := by
  have hwf := patterns_wellFormed hp
  have hlen := hocc.within_length hwf
  rw [← hwf.len, helems] at hlen
  obtain ⟨a, b, hab⟩ := List.length_eq_two.1 hlen
  have ha : (window block p j)[0]? = some a := by rw [hab]; rfl
  have hb : (window block p j)[1]? = some b := by rw [hab]; rfl
  obtain ⟨ham, hai⟩ := hocc.start hwf (by rw [helems]; rfl) ha
  obtain ⟨hbm, hacc, hbi⟩ := hocc.onDest hwf (by rw [helems]; rfl) ha hb
  rw [hab] at hd ⊢
  exact ⟨_, hemit a b, hs a b ham hbm hacc hai hbi (hd a (by simp)) (hd b (by simp)) g r h e hrep⟩

/-- Every occurrence of the pattern of three instructions is simulated by its code. -/
theorem pattern7_meaning (flags : Flags) {p : Pattern} (hp : p ∈ patterns)
    (helems : p.elements = p7Elem) (hocc : Occurs block p j)
    (hd : ∀ instr ∈ window block p j, instr.Decoded) (hrep : Represents x0 g r h) :
    ∃ gen, emitPattern flags .emitPattern7 (window block p j) = some gen ∧
      FusedMeaning gen (window block p j) g ⟨r, e⟩ h := by
  have hwf := patterns_wellFormed hp
  have hlen := hocc.within_length hwf
  rw [← hwf.len, helems] at hlen
  obtain ⟨a, b, c, habc⟩ := List.length_eq_three.1 hlen
  have ha : (window block p j)[0]? = some a := by rw [habc]; rfl
  have hb : (window block p j)[1]? = some b := by rw [habc]; rfl
  have hc : (window block p j)[2]? = some c := by rw [habc]; rfl
  obtain ⟨ham, -⟩ := hocc.start hwf (by rw [helems]; rfl) ha
  obtain ⟨hbm, hab, hbi⟩ := hocc.onDest hwf (by rw [helems]; rfl) ha hb
  obtain ⟨hcm, hac, hci⟩ := hocc.onDest hwf (by rw [helems]; rfl) ha hc
  rw [habc] at hd ⊢
  obtain ⟨hrs1, hrd, hfits⟩ := decoded_immediate (hd a (by simp)) (by rw [ham]; rfl)
  exact ⟨_, rfl, simulates_emitPattern7 flags ham hbm hcm hab hac (hbi rfl) (hci rfl) hrs1 hrd hfits
    g r h e hrep⟩

/-- The fused code of addresses, constants and shifts has the effect of the instructions, whatever
their operands and wherever the registers lie. -/
theorem constantFusion_meaning (flags : Flags) {p : Pattern} (hp : p ∈ patterns)
    {em : PatternEmitter} (hem : p.emitter = some em) (hconst : em ∈ constantEmitters)
    (hocc : Occurs block p j) (hd : ∀ instr ∈ window block p j, instr.Decoded)
    (hrep : Represents x0 g r h) :
    ∃ gen, emitPattern flags em (window block p j) = some gen ∧
      FusedMeaning gen (window block p j) g ⟨r, e⟩ h := by
  have helems : ∀ p ∈ patterns, ∀ em ∈ constantEmitters, p.emitter = some em →
      p.elements = match em with
        | .emitPattern3 => p3Elem
        | .emitPattern4 => p4Elem
        | .emitPattern5 => p5Elem
        | .emitPattern6 => p6Elem
        | .emitPattern21 => p21Elem
        | .emitPattern7 => p7Elem
        | .emitPattern19LI => p19Elem
        | _ => p23Elem := by decide
  have helem := helems p hp em hconst hem
  simp only [constantEmitters, List.mem_cons, List.not_mem_nil, or_false] at hconst
  -- pattern 7 takes three instructions, all others two
  rcases hconst with rfl | rfl | rfl | rfl | rfl | rfl | rfl | rfl
  · refine pair_meaning flags hp helem hocc hd (fun _ _ => rfl)
      (fun a b ham hbm hacc _ _ ha hb => ?_)
      hrep
    exact simulates_emitPattern3 flags ham hbm hacc (decoded_upper ha (by rw [ham]; rfl))
  · refine pair_meaning flags hp helem hocc hd (fun _ _ => rfl)
      (fun a b ham hbm hacc _ _ ha hb => ?_)
      hrep
    exact simulates_emitPattern4 flags ham hbm hacc (decoded_upper ha (by rw [ham]; rfl))
  · refine pair_meaning flags hp helem hocc hd (fun _ _ => rfl)
      (fun a b ham hbm hacc _ _ ha hb => ?_)
      hrep
    exact simulates_emitPattern5 flags ham hbm hacc (decoded_upper ha (by rw [ham]; rfl))
  · refine pair_meaning flags hp helem hocc hd (fun _ _ => rfl)
      (fun a b ham hbm hacc hai hbi ha hb => ?_) hrep
    obtain ⟨hrs1, hrd, -⟩ := decoded_shift ha (by rw [ham]; rfl)
    exact simulates_emitPattern6 flags ham hbm hacc (hai rfl) (hbi rfl) hrs1 hrd
  · refine pair_meaning flags hp helem hocc hd (fun _ _ => rfl)
      (fun a b ham hbm hacc hai _ ha hb => ?_) hrep
    obtain ⟨hrs1, hrd, -⟩ := decoded_shift ha (by rw [ham]; rfl)
    obtain ⟨-, -, himm⟩ := decoded_shift hb (by rw [hbm]; rfl)
    exact simulates_emitPattern21 flags ham hbm hacc (hai rfl) himm hrs1 hrd
  · exact pattern7_meaning flags hp helem hocc hd hrep
  · refine pair_meaning flags hp helem hocc hd (fun _ _ => rfl)
      (fun a b ham hbm hacc _ _ ha hb => ?_)
      hrep
    exact simulates_emitPattern19LI flags ham hbm hacc (decoded_upper ha (by rw [ham]; rfl))
  · refine pair_meaning flags hp helem hocc hd (fun _ _ => rfl)
      (fun a b ham hbm hacc _ hbi ha hb => ?_) hrep
    obtain ⟨hrs1, hrd, hfits⟩ := decoded_immediate ha (by rw [ham]; rfl)
    exact simulates_emitPattern23 flags ham hbm hacc (hbi rfl) hrs1 hrd hfits

end Matches

/-! ## A constant that is built -/

/-- `LUI x5, 0x12345` and `ADDI x5, x5, -1` between two other instructions. -/
def constantBlock : List RiscInstr :=
  [⟨0x10000#64, .addi, .immediate, 0, 0, 6, 1#64⟩,
    ⟨0x10004#64, .lui, .upperImmediate, 0, 0, 5, 0x12345000#64⟩,
    ⟨0x10008#64, .addi, .immediate, 5, 0, 5, BitVec.ofInt 64 (-1)⟩,
    ⟨0x1000c#64, .addi, .immediate, 5, 0, 7, 0#64⟩]

/-- `{p_19_elem, 2, &emit_pattern_19_LI}` of `patterns`. -/
def pattern19 : Pattern := ⟨p19Elem, 2, some .emitPattern19LI⟩

theorem constantBlock_occurs : Occurs constantBlock pattern19 1 := by
  unfold Occurs
  decide

theorem constantFusion_meaning_constant :
    ∃ gen, emitPattern {} .emitPattern19LI (window constantBlock pattern19 1) = some gen ∧
      FusedMeaning gen (window constantBlock pattern19 1) zeroGuest
        ⟨(TransState.initial 0#64).rInfo, false⟩ zeroHost :=
  constantFusion_meaning {} (by decide) rfl (by decide) constantBlock_occurs (by decide)
    zero_represented

end RiaJit.Translate
