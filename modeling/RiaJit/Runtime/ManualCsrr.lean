import RiaJit.Gen.Translate
import RiaJit.Guest.Zicsr
import RiaJit.Parser.Classes

/-!
# The floating-point CSR in `MXCSR`

`manualCSRR.c`: accesses to `fflags`, `frm` and `fcsr` work on the control register of the
host, whose flags and rounding modes are numbered otherwise. They behave as one register of
eight bits.
-/

set_option autoImplicit false

namespace RiaJit.Runtime

/-! ## Conversions -/

/-- `FE_TONEAREST`. -/
def feToNearest : BitVec 32 := 0#32

/-- `FE_DOWNWARD`. -/
def feDownward : BitVec 32 := 0x400#32

/-- `FE_UPWARD`. -/
def feUpward : BitVec 32 := 0x800#32

/-- `FE_TOWARDZERO`. -/
def feTowardZero : BitVec 32 := 0xc00#32

/-- `SSE_ROUND_MASK`. -/
def sseRoundMask : BitVec 32 := feToNearest ||| feDownward ||| feUpward ||| feTowardZero

/-- `SSE_ROUND_SHIFT`. -/
def sseRoundShift : Nat := 3

/-- `SSE_FLAGS_MASK`. -/
def sseFlagsMask : BitVec 32 := 0x3d#32

/-- `FE_COUNT_RISCV`. -/
def feCountRiscv : Nat := 5

/-- `if (flags & mask) result |= flag`, for one flag. -/
def flagIf (flags mask flag : BitVec 32) : BitVec 32 :=
  if flags &&& mask ≠ 0#32 then flag else 0#32

/-- `to_RISCV_flags`: inexact, underflow, overflow, division by zero, invalid. -/
def toRiscvFlags (flags : BitVec 32) : BitVec 32 :=
  flagIf flags 0x20#32 0x1#32 ||| flagIf flags 0x10#32 0x2#32 ||| flagIf flags 0x8#32 0x4#32 |||
    flagIf flags 0x4#32 0x8#32 ||| flagIf flags 0x1#32 0x10#32

/-- `to_SSE_flags`. -/
def toSseFlags (flags : BitVec 32) : BitVec 32 :=
  flagIf flags 0x1#32 0x20#32 ||| flagIf flags 0x2#32 0x10#32 ||| flagIf flags 0x4#32 0x8#32 |||
    flagIf flags 0x8#32 0x4#32 ||| flagIf flags 0x10#32 0x1#32

/-- `to_SSE_RoundMode`, on `RNE`, `RTZ`, `RDN` and `RUP`. -/
def toSseRoundMode (flags : Flags) (round : BitVec 32) : Except Abort (BitVec 32) :=
  if round = 0#32 then .ok feToNearest
  else if round = 2#32 then .ok feDownward
  else if round = 3#32 then .ok feUpward
  else if round = 1#32 then .ok feTowardZero
  else criticalNotYetImplemented flags 0#32

/-- `to_RISCV_RoundMode`. -/
def toRiscvRoundMode (flags : Flags) (round : BitVec 32) : Except Abort (BitVec 32) :=
  if round = feToNearest then .ok 0#32
  else if round = feDownward then .ok 2#32
  else if round = feUpward then .ok 3#32
  else if round = feTowardZero then .ok 1#32
  else criticalNotYetImplemented flags (-1#32)

/-! ## The function -/

/-- The switch of `manualCSRR` that loads `csr`. -/
def loadFcsr (flags : Flags) (imm : BitVec 64) (mxcsr : BitVec 32) : Except Abort (BitVec 32) :=
  let temp := (mxcsr >>> sseRoundShift) &&& sseRoundMask
  if imm = 1#64 then .ok (toRiscvFlags mxcsr)
  else if imm = 2#64 then toRiscvRoundMode flags temp
  else if imm = 3#64 then do
    let round ← toRiscvRoundMode flags temp
    return toRiscvFlags mxcsr ||| round <<< feCountRiscv
  else criticalNotYetImplemented flags 0#32

/-- The switch that computes the new value. -/
def operateFcsr (flags : Flags) (mnem : RiscMnem) (csr : BitVec 32) (oldRegSrc1Value : BitVec 64)
    (src1 : Nat) : Except Abort (BitVec 32) :=
  match mnem with
  | .csrrw => .ok (oldRegSrc1Value.setWidth 32)
  | .csrrwi => .ok (BitVec.ofNat 32 src1)
  | .csrrs => .ok (csr ||| oldRegSrc1Value.setWidth 32)
  | .csrrsi => .ok (csr ||| BitVec.ofNat 32 src1)
  | .csrrc => .ok (csr &&& ~~~oldRegSrc1Value.setWidth 32)
  | .csrrci => .ok (csr &&& ~~~BitVec.ofNat 32 src1)
  | _ => criticalNotYetImplemented flags csr

/-- The switch that writes back. -/
def writeFcsr (flags : Flags) (imm : BitVec 64) (mxcsr csr : BitVec 32) :
    Except Abort (BitVec 32) :=
  if imm = 1#64 then .ok ((mxcsr &&& ~~~sseFlagsMask) ||| toSseFlags csr)
  else if imm = 2#64 then do
    let round ← toSseRoundMode flags (csr &&& 0x7#32)
    return (mxcsr &&& ~~~(sseRoundMask <<< sseRoundShift)) ||| round <<< sseRoundShift
  else if imm = 3#64 then do
    let round ← toSseRoundMode flags ((csr >>> feCountRiscv) &&& 0x7#32)
    return (mxcsr &&& ~~~(sseFlagsMask ||| sseRoundMask <<< sseRoundShift)) ||| toSseFlags csr |||
      round <<< sseRoundShift
  else criticalNotYetImplemented flags mxcsr

/-- `manualCSRR`: the register file and `MXCSR` after it. -/
def manualCSRR (flags : Flags) (registerValues : Nat → BitVec 64) (mxcsr : BitVec 32)
    (imm : BitVec 64) (src1 : Nat) (mnem : RiscMnem) (dest : Nat) :
    Except Abort ((Nat → BitVec 64) × BitVec 32) := do
  let csr ← loadFcsr flags imm mxcsr
  let oldRegSrc1Value := registerValues src1
  let registerValues' :=
    if dest ≠ x0 then Function.update registerValues dest (csr.setWidth 64) else registerValues
  let csr ← operateFcsr flags mnem csr oldRegSrc1Value src1
  if ¬ ((mnem = .csrrs ∨ mnem = .csrrsi ∨ mnem = .csrrc ∨ mnem = .csrrci) ∧ src1 = x0) then do
    let mxcsr ← writeFcsr flags imm mxcsr csr
    return (registerValues', mxcsr)
  else return (registerValues', mxcsr)

/-! ## `MXCSR` as a floating-point CSR -/

/-- The number of a rounding mode whose bits in `MXCSR` are given. -/
def modeOf (down up : Bool) : BitVec 8 :=
  match down, up with
  | false, false => 0#8
  | true, true => 1#8
  | true, false => 2#8
  | false, true => 3#8

/-- A register with given flags and rounding bits. -/
def fcsrWord (nx uf of dz nv down up : Bool) : BitVec 8 :=
  (BitVec.ofBool nx).setWidth 8 ||| (BitVec.ofBool uf).setWidth 8 <<< 1 |||
    (BitVec.ofBool of).setWidth 8 <<< 2 ||| (BitVec.ofBool dz).setWidth 8 <<< 3 |||
    (BitVec.ofBool nv).setWidth 8 <<< 4 ||| modeOf down up <<< 5

/-- The register that `MXCSR` holds. -/
def fcsrOf (mxcsr : BitVec 32) : BitVec 8 :=
  fcsrWord (mxcsr.getLsbD 5) (mxcsr.getLsbD 4) (mxcsr.getLsbD 3) (mxcsr.getLsbD 2)
    (mxcsr.getLsbD 0) (mxcsr.getLsbD 13) (mxcsr.getLsbD 14)

/-- The bits of `MXCSR` that are no part of it: exception masks, the denormal flag, `FTZ`, `DAZ`. -/
def otherBits : BitVec 32 := ~~~0x603d#32

section Bits

theorem flagIf_bit (flags flag : BitVec 32) (i : Nat) :
    flagIf flags (BitVec.twoPow 32 i) flag = if flags.getLsbD i then flag else 0#32 := by
  unfold flagIf
  rw [BitVec.and_twoPow]
  by_cases hbit : flags.getLsbD i = true
  · have hlt : i < 32 := BitVec.lt_of_getLsbD hbit
    have hpow : BitVec.twoPow 32 i ≠ 0#32 := fun heq => by
      have hself := congrArg (fun v => v.getLsbD i) heq
      simp [hlt] at hself
    rw [if_pos hbit, if_pos hpow, if_pos hbit]
  · rw [if_neg hbit, if_neg (not_not.2 rfl), if_neg hbit]

/-- The flags of the guest, from those of the host. -/
theorem toRiscvFlags_eq (m : BitVec 32) :
    toRiscvFlags m = (fcsrOf m &&& 0x1f#8).setWidth 32 := by
  have hall : ∀ nx uf of dz nv down up : Bool,
      ((if nx then 0x1#32 else 0#32) ||| (if uf then 0x2#32 else 0#32) |||
        (if of then 0x4#32 else 0#32) ||| (if dz then 0x8#32 else 0#32) |||
        (if nv then 0x10#32 else 0#32)) =
      (fcsrWord nx uf of dz nv down up &&& 0x1f#8).setWidth 32 := by decide
  have hbits : toRiscvFlags m = (if m.getLsbD 5 then 0x1#32 else 0#32) |||
      (if m.getLsbD 4 then 0x2#32 else 0#32) ||| (if m.getLsbD 3 then 0x4#32 else 0#32) |||
      (if m.getLsbD 2 then 0x8#32 else 0#32) ||| (if m.getLsbD 0 then 0x10#32 else 0#32) := by
    unfold toRiscvFlags
    rw [← flagIf_bit, ← flagIf_bit, ← flagIf_bit, ← flagIf_bit, ← flagIf_bit]
    rfl
  rw [hbits]
  exact hall ..

/-- The flags of the host, as the conversion sets them. -/
def sseWord (nx uf of dz nv : Bool) : BitVec 32 :=
  (if nx then 0x20#32 else 0#32) ||| (if uf then 0x10#32 else 0#32) |||
    (if of then 0x8#32 else 0#32) ||| (if dz then 0x4#32 else 0#32) |||
    (if nv then 0x1#32 else 0#32)

theorem toSseFlags_eq (c : BitVec 32) :
    toSseFlags c = sseWord (c.getLsbD 0) (c.getLsbD 1) (c.getLsbD 2) (c.getLsbD 3)
      (c.getLsbD 4) := by
  unfold toSseFlags sseWord
  rw [← flagIf_bit, ← flagIf_bit, ← flagIf_bit, ← flagIf_bit, ← flagIf_bit]
  rfl

/-- The rounding bits, shifted down. -/
def roundWord (down up : Bool) : BitVec 32 :=
  (if down then feDownward else 0#32) ||| if up then feUpward else 0#32

theorem roundBits_eq (m : BitVec 32) :
    (m >>> sseRoundShift) &&& sseRoundMask = roundWord (m.getLsbD 13) (m.getLsbD 14) := by
  have hmask : sseRoundMask = BitVec.twoPow 32 10 ||| BitVec.twoPow 32 11 := by decide
  rw [hmask, BitVec.and_or_distrib_left, BitVec.and_twoPow, BitVec.and_twoPow,
    BitVec.getLsbD_ushiftRight, BitVec.getLsbD_ushiftRight]
  rfl

theorem toRiscvRoundMode_eq (flags : Flags) (down up : Bool) :
    toRiscvRoundMode flags (roundWord down up) = .ok ((modeOf down up).setWidth 32) := by
  cases down with
  | false => cases up <;> rfl
  | true => cases up <;> rfl

/-- Each view of the register is loaded as it is. -/
theorem loadFcsr_eq (flags : Flags) {imm : BitVec 64} (himm : imm ∈ [1#64, 2#64, 3#64])
    (m : BitVec 32) :
    loadFcsr flags imm m = .ok ((fcsrView imm (fcsrOf m)).setWidth 32) := by
  have hmode : ∀ nx uf of dz nv down up : Bool,
      (modeOf down up).setWidth 32 =
        ((fcsrWord nx uf of dz nv down up >>> 5).setWidth 64).setWidth 32 ∧
      (fcsrWord nx uf of dz nv down up &&& 0x1f#8).setWidth 32 |||
          (modeOf down up).setWidth 32 <<< 5 =
        ((fcsrWord nx uf of dz nv down up).setWidth 64).setWidth 32 := by decide
  simp only [List.mem_cons, List.not_mem_nil, or_false] at himm
  unfold loadFcsr
  dsimp only
  rw [roundBits_eq, toRiscvRoundMode_eq, toRiscvFlags_eq]
  rcases himm with rfl | rfl | rfl
  · rw [if_pos rfl]
    show _ = Except.ok (((fcsrOf m &&& 0x1f#8).setWidth 64).setWidth 32)
    rw [BitVec.setWidth_setWidth_of_le _ (by decide)]
  · rw [if_neg (by decide), if_pos rfl]
    exact congrArg Except.ok (hmode ..).1
  · rw [if_neg (by decide), if_neg (by decide), if_pos rfl]
    exact congrArg Except.ok (hmode ..).2

/-! ## Writing a view -/

theorem fcsrWord_lower : ∀ nx uf of dz nv down up : Bool,
    fcsrWord nx uf of dz nv down up &&& 0x1f#8 = fcsrWord nx uf of dz nv false false := by
  decide

theorem fcsrWord_upper : ∀ nx uf of dz nv down up : Bool,
    fcsrWord nx uf of dz nv down up &&& 0xe0#8 = modeOf down up <<< 5 := by
  decide

theorem fcsrWord_join : ∀ nx uf of dz nv down up : Bool,
    modeOf down up <<< 5 ||| fcsrWord nx uf of dz nv false false =
      fcsrWord nx uf of dz nv down up := by
  decide

/-- The flags in a register value. -/
theorem flags_of_byte : ∀ v : BitVec 8,
    v &&& 0x1f#8 = fcsrWord (v.getLsbD 0) (v.getLsbD 1) (v.getLsbD 2) (v.getLsbD 3)
      (v.getLsbD 4) false false := by
  decide

/-- A mode below four has its rounding bits. -/
theorem modeOf_surjective : ∀ k : BitVec 8, k.toNat < 4 → ∃ down up, k = modeOf down up := by
  decide

theorem toSseRoundMode_eq (flags : Flags) (down up : Bool) :
    toSseRoundMode flags ((modeOf down up).setWidth 32) = .ok (roundWord down up) := by
  cases down with
  | false => cases up <;> rfl
  | true => cases up <;> rfl

/-- The bits of a value put in under a mask. -/
theorem getLsbD_masked (m keep w : BitVec 32) (i : Nat) :
    ((m &&& keep) ||| w).getLsbD i = (m.getLsbD i && keep.getLsbD i || w.getLsbD i) := by
  rw [BitVec.getLsbD_or, BitVec.getLsbD_and]

/-- What lies outside the mask stays. -/
theorem and_masked (m : BitVec 32) {keep w c : BitVec 32} (hkeep : keep &&& c = c)
    (hw : w &&& c = 0#32) : ((m &&& keep) ||| w) &&& c = m &&& c := by
  rw [BitVec.and_comm, BitVec.and_or_distrib_left, BitVec.and_comm c w, hw, BitVec.or_zero,
    BitVec.and_comm c, BitVec.and_assoc, hkeep]

theorem sseWord_bits : ∀ nx uf of dz nv : Bool,
    (sseWord nx uf of dz nv).getLsbD 5 = nx ∧ (sseWord nx uf of dz nv).getLsbD 4 = uf ∧
      (sseWord nx uf of dz nv).getLsbD 3 = of ∧ (sseWord nx uf of dz nv).getLsbD 2 = dz ∧
      (sseWord nx uf of dz nv).getLsbD 0 = nv ∧ (sseWord nx uf of dz nv).getLsbD 13 = false ∧
      (sseWord nx uf of dz nv).getLsbD 14 = false ∧
      sseWord nx uf of dz nv &&& otherBits = 0#32 := by
  decide

theorem roundWord_bits : ∀ down up : Bool,
    (roundWord down up <<< sseRoundShift).getLsbD 5 = false ∧
      (roundWord down up <<< sseRoundShift).getLsbD 4 = false ∧
      (roundWord down up <<< sseRoundShift).getLsbD 3 = false ∧
      (roundWord down up <<< sseRoundShift).getLsbD 2 = false ∧
      (roundWord down up <<< sseRoundShift).getLsbD 0 = false ∧
      (roundWord down up <<< sseRoundShift).getLsbD 13 = down ∧
      (roundWord down up <<< sseRoundShift).getLsbD 14 = up ∧
      roundWord down up <<< sseRoundShift &&& otherBits = 0#32 := by
  decide

/-- Writing the flags of the host leaves its rounding bits. -/
theorem fcsrOf_writeFlags (m : BitVec 32) (nx uf of dz nv : Bool) :
    fcsrOf ((m &&& ~~~sseFlagsMask) ||| sseWord nx uf of dz nv) =
      fcsrWord nx uf of dz nv (m.getLsbD 13) (m.getLsbD 14) := by
  have hkeep : (~~~sseFlagsMask).getLsbD 5 = false ∧ (~~~sseFlagsMask).getLsbD 4 = false ∧
      (~~~sseFlagsMask).getLsbD 3 = false ∧ (~~~sseFlagsMask).getLsbD 2 = false ∧
      (~~~sseFlagsMask).getLsbD 0 = false ∧ (~~~sseFlagsMask).getLsbD 13 = true ∧
      (~~~sseFlagsMask).getLsbD 14 = true := by decide
  unfold fcsrOf
  simp only [getLsbD_masked, hkeep, sseWord_bits, Bool.and_false, Bool.false_or, Bool.and_true,
    Bool.or_false]

/-- Writing its rounding bits leaves the flags. -/
theorem fcsrOf_writeRound (m : BitVec 32) (down up : Bool) :
    fcsrOf ((m &&& ~~~(sseRoundMask <<< sseRoundShift)) ||| roundWord down up <<< sseRoundShift) =
      fcsrWord (m.getLsbD 5) (m.getLsbD 4) (m.getLsbD 3) (m.getLsbD 2) (m.getLsbD 0) down up := by
  obtain ⟨keep, hkeep⟩ : ∃ keep, keep = ~~~(sseRoundMask <<< sseRoundShift) := ⟨_, rfl⟩
  have hbits : keep.getLsbD 5 = true ∧ keep.getLsbD 4 = true ∧ keep.getLsbD 3 = true ∧
      keep.getLsbD 2 = true ∧ keep.getLsbD 0 = true ∧ keep.getLsbD 13 = false ∧
      keep.getLsbD 14 = false := by
    subst hkeep
    decide
  rw [← hkeep]
  unfold fcsrOf
  simp only [getLsbD_masked, hbits, roundWord_bits, Bool.and_false, Bool.false_or, Bool.and_true,
    Bool.or_false]

/-- Writing both replaces the register. -/
theorem fcsrOf_writeBoth (m : BitVec 32) (nx uf of dz nv down up : Bool) :
    fcsrOf ((m &&& ~~~(sseFlagsMask ||| sseRoundMask <<< sseRoundShift)) |||
        sseWord nx uf of dz nv ||| roundWord down up <<< sseRoundShift) =
      fcsrWord nx uf of dz nv down up := by
  obtain ⟨keep, hkeep⟩ :
      ∃ keep, keep = ~~~(sseFlagsMask ||| sseRoundMask <<< sseRoundShift) := ⟨_, rfl⟩
  have hbits : keep.getLsbD 5 = false ∧ keep.getLsbD 4 = false ∧ keep.getLsbD 3 = false ∧
      keep.getLsbD 2 = false ∧ keep.getLsbD 0 = false ∧ keep.getLsbD 13 = false ∧
      keep.getLsbD 14 = false := by
    subst hkeep
    decide
  rw [← hkeep]
  unfold fcsrOf
  simp only [BitVec.getLsbD_or, BitVec.getLsbD_and, hbits, sseWord_bits, roundWord_bits,
    Bool.and_false, Bool.false_or, Bool.or_false]

/-- The mask of the three bits that a rounding mode has. -/
theorem getLsbD_seven (w i : Nat) :
    (BitVec.ofNat w 7).getLsbD i = (decide (i < w) && decide (i < 3)) := by
  rw [BitVec.getLsbD_ofNat, show (7 : Nat) = 2 ^ 3 - 1 from rfl, Nat.testBit_two_pow_sub_one]

theorem and_seven (c : BitVec 32) : c &&& 0x7#32 = (c.setWidth 8 &&& 0x7#8).setWidth 32 := by
  apply BitVec.eq_of_getLsbD_eq
  intro i hi
  rw [BitVec.getLsbD_and, BitVec.getLsbD_setWidth, BitVec.getLsbD_and, BitVec.getLsbD_setWidth,
    getLsbD_seven, getLsbD_seven]
  by_cases h3 : i < 3
  · simp [h3, hi, show i < 8 by omega]
  · simp [h3]

theorem setWidth_ushiftRight_and_seven (v : BitVec 64) :
    (v.setWidth 32 >>> feCountRiscv).setWidth 8 &&& 0x7#8 = v.setWidth 8 >>> 5 := by
  apply BitVec.eq_of_getLsbD_eq
  intro i hi
  rw [BitVec.getLsbD_and, BitVec.getLsbD_setWidth, BitVec.getLsbD_ushiftRight,
    BitVec.getLsbD_ushiftRight, BitVec.getLsbD_setWidth, BitVec.getLsbD_setWidth, getLsbD_seven]
  unfold feCountRiscv
  by_cases h3 : i < 3
  · simp [h3, hi, show 5 + i < 8 by omega, show 5 + i < 32 by omega]
  · simp [h3, show ¬ 5 + i < 8 by omega]

/-- The conversion of the flags in a value. -/
theorem toSseFlags_setWidth (v : BitVec 64) :
    toSseFlags (v.setWidth 32) =
      sseWord ((v.setWidth 8).getLsbD 0) ((v.setWidth 8).getLsbD 1) ((v.setWidth 8).getLsbD 2)
        ((v.setWidth 8).getLsbD 3) ((v.setWidth 8).getLsbD 4) := by
  rw [toSseFlags_eq]
  simp only [BitVec.getLsbD_setWidth]
  rfl

/-- Each view is written as the register has it, and the rest of `MXCSR` stays. -/
theorem writeFcsr_eq (flags : Flags) {imm : BitVec 64} (himm : imm ∈ [1#64, 2#64, 3#64])
    (m : BitVec 32) (v : BitVec 64)
    (hround : (fcsrInsert imm (fcsrOf m) v >>> 5).toNat < 4) :
    ∃ m', writeFcsr flags imm m (v.setWidth 32) = .ok m' ∧
      fcsrOf m' = fcsrInsert imm (fcsrOf m) v ∧ m' &&& otherBits = m &&& otherBits := by
  simp only [List.mem_cons, List.not_mem_nil, or_false] at himm
  obtain ⟨c, hc⟩ : ∃ c, c = v.setWidth 8 := ⟨_, rfl⟩
  unfold writeFcsr
  rcases himm with rfl | rfl | rfl
  · -- the flags
    rw [if_pos rfl, toSseFlags_setWidth, ← hc]
    refine ⟨_, rfl, ?_, and_masked m (by decide) (sseWord_bits ..).2.2.2.2.2.2.2⟩
    rw [fcsrOf_writeFlags]
    show _ = (fcsrOf m &&& 0xe0#8) ||| (v.setWidth 8 &&& 0x1f#8)
    rw [← hc, flags_of_byte c]
    unfold fcsrOf
    rw [fcsrWord_upper, fcsrWord_join]
  · -- the rounding mode
    have hshift : ∀ b : BitVec 8, (b <<< 5) >>> 5 = b &&& 0x7#8 ∧ (b &&& 0x1f#8) >>> 5 = 0#8 ∧
        b <<< 5 = (b &&& 0x7#8) <<< 5 := by decide
    have hinsert : fcsrInsert 2#64 (fcsrOf m) v = (fcsrOf m &&& 0x1f#8) ||| c <<< 5 := by
      rw [hc]
      rfl
    rw [hinsert, BitVec.ushiftRight_or_distrib, (hshift _).2.1, (hshift _).1,
      BitVec.zero_or] at hround
    obtain ⟨down, up, hmode⟩ := modeOf_surjective _ hround
    rw [if_neg (by decide), if_pos rfl, and_seven,
      BitVec.setWidth_setWidth_of_le _ (by decide), ← hc, hmode, toSseRoundMode_eq]
    refine ⟨_, rfl, ?_, and_masked m (by decide) (roundWord_bits ..).2.2.2.2.2.2.2⟩
    rw [fcsrOf_writeRound, hinsert, (hshift c).2.2, hmode, BitVec.or_comm]
    unfold fcsrOf
    rw [fcsrWord_lower, fcsrWord_join]
  · -- the whole register
    have hsplit : ∀ b : BitVec 8, b = (b >>> 5) <<< 5 ||| (b &&& 0x1f#8) := by decide
    have hinsert : fcsrInsert 3#64 (fcsrOf m) v = c := by
      rw [hc]
      rfl
    rw [hinsert] at hround
    obtain ⟨down, up, hmode⟩ := modeOf_surjective _ hround
    rw [if_neg (by decide), if_neg (by decide), if_pos rfl, and_seven,
      setWidth_ushiftRight_and_seven, ← hc, hmode, toSseRoundMode_eq, toSseFlags_setWidth, ← hc]
    refine ⟨_, rfl, ?_, ?_⟩
    · rw [fcsrOf_writeBoth, hinsert]
      calc fcsrWord _ _ _ _ _ down up
          = modeOf down up <<< 5 ||| (c &&& 0x1f#8) := by rw [flags_of_byte c, fcsrWord_join]
        _ = c := by rw [← hmode, ← hsplit]
    · rw [BitVec.or_assoc]
      refine and_masked m (by decide) ?_
      rw [BitVec.and_comm, BitVec.and_or_distrib_left, BitVec.and_comm,
        (sseWord_bits ..).2.2.2.2.2.2.2, BitVec.and_comm, (roundWord_bits ..).2.2.2.2.2.2.2,
        BitVec.zero_or]

end Bits

/-! ## Accesses -/

/-- The call that `translate_MANUAL_CSRR` makes, with the mnemonic that `parse_block` saved. -/
def execManualCSRR (flags : Flags) (entry : RiscInstr) (s : (Nat → BitVec 64) × BitVec 32) :
    Except Abort ((Nat → BitVec 64) × BitVec 32) :=
  manualCSRR flags s.1 s.2 entry.imm entry.regSrc1 (RiscMnem.ofNat entry.regSrc2) entry.regDest

/-- The calls of a sequence of entries. -/
def runManualCSRR (flags : Flags) : List RiscInstr → (Nat → BitVec 64) × BitVec 32 →
    Except Abort ((Nat → BitVec 64) × BitVec 32)
  | [], s => .ok s
  | entry :: entries, s => do
      let s ← execManualCSRR flags entry s
      runManualCSRR flags entries s

section Accesses

variable (flags : Flags) {instr : RiscInstr}

/-- The entry of an access is marked, and its call gets the mnemonic of the access. -/
theorem execManualCSRR_marked (h : instr.IsFcsrAccess) (s : (Nat → BitVec 64) × BitVec 32) :
    (Translate.markCsr instr).mnem = .manualCsrr ∧
      execManualCSRR flags (Translate.markCsr instr) s =
        manualCSRR flags s.1 s.2 instr.imm instr.regSrc1 instr.mnem instr.regDest := by
  have hrange : 0 < instr.imm.toInt ∧ instr.imm.toInt < 4 := by
    rcases h with ⟨-, himm⟩
    simp only [List.mem_cons, List.not_mem_nil, or_false] at himm
    rcases himm with himm | himm | himm <;> (rw [himm]; decide)
  unfold Translate.markCsr execManualCSRR
  rw [if_pos hrange]
  exact ⟨rfl, by rw [RiscMnem.ofNat_ctorIdx]⟩

/-- A view fits in 32 bits. -/
theorem setWidth_fcsrView (imm : BitVec 64) (fcsr : BitVec 8) :
    ((fcsrView imm fcsr).setWidth 32).setWidth 64 = fcsrView imm fcsr := by
  have hbyte : ∀ b : BitVec 8, ((b.setWidth 64).setWidth 32).setWidth 64 = b.setWidth 64 := by
    decide
  unfold fcsrView
  split
  · exact hbyte _
  · split
    · exact hbyte _
    · exact hbyte _

/-- The new value, on the lower half of the registers. -/
theorem operateFcsr_eq (hmnem : instr.mnem ∈ [.csrrw, .csrrs, .csrrc, .csrrwi, .csrrsi, .csrrci])
    (g : GuestState) (hzero : g.reg x0 = 0#64) (old : BitVec 64) :
    operateFcsr flags instr.mnem (old.setWidth 32) (g.reg instr.regSrc1) instr.regSrc1 =
      .ok ((instr.csrResult old (instr.csrSource g)).setWidth 32) := by
  have hread : g.read instr.regSrc1 = g.reg instr.regSrc1 := by
    unfold GuestState.read
    split
    · rename_i hx0
      rw [hx0, hzero]
    · rfl
  have hfield : (BitVec.ofNat 64 instr.regSrc1).setWidth 32 = BitVec.ofNat 32 instr.regSrc1 :=
    BitVec.setWidth_ofNat_of_le (by decide) _
  unfold operateFcsr RiscInstr.csrResult RiscInstr.csrSource
  simp only [List.mem_cons, List.not_mem_nil, or_false] at hmnem
  rcases hmnem with h | h | h | h | h | h
  · simp only [h, hread]
  · simp only [h, hread, BitVec.setWidth_or]
  · simp only [h, hread, BitVec.setWidth_and, BitVec.setWidth_not (show 32 ≤ 64 by decide)]
  · simp only [h, hfield]
  · simp only [h, BitVec.setWidth_or, hfield]
  · simp only [h, BitVec.setWidth_and, BitVec.setWidth_not (show 32 ≤ 64 by decide), hfield]

/-- The registers after an access. -/
theorem registerValues_step (s : FcsrState) (instr : RiscInstr) :
    (if instr.regDest ≠ x0 then
      Function.update s.guest.reg instr.regDest
        (((fcsrView instr.imm s.fcsr).setWidth 32).setWidth 64)
      else s.guest.reg) = (s.step instr).guest.reg := by
  rw [setWidth_fcsrView]
  show _ = (s.guest.write instr.regDest _).reg
  unfold GuestState.write
  by_cases hdest : instr.regDest = x0
  · rw [if_neg (not_not.2 hdest), if_pos hdest]
  · rw [if_pos hdest, if_neg hdest]

theorem step_reg_zero (s : FcsrState) (instr : RiscInstr) :
    (s.step instr).guest.reg x0 = s.guest.reg x0 := by
  show (s.guest.write instr.regDest _).reg x0 = _
  by_cases hdest : instr.regDest = x0
  · unfold GuestState.write
    rw [if_pos hdest]
  · exact GuestState.write_reg_of_ne _ (Ne.symm hdest) _

/-- One access: `rd` gets the view of the old register, the register becomes what it should,
and the rest of `MXCSR` stays. -/
theorem manualCSRR_step (h : instr.IsFcsrAccess) (s : FcsrState) (hzero : s.guest.reg x0 = 0#64)
    (m : BitVec 32) (hm : fcsrOf m = s.fcsr) (hround : (s.step instr).Rounds) :
    ∃ m', manualCSRR flags s.guest.reg m instr.imm instr.regSrc1 instr.mnem instr.regDest =
        .ok ((s.step instr).guest.reg, m') ∧
      fcsrOf m' = (s.step instr).fcsr ∧ m' &&& otherBits = m &&& otherBits := by
  obtain ⟨hmnem, himm⟩ := h
  unfold manualCSRR
  rw [loadFcsr_eq flags himm, hm]
  simp only [bind, Except.bind, pure, Except.pure]
  rw [registerValues_step, operateFcsr_eq flags hmnem s.guest hzero]
  have hcond : (instr.mnem = .csrrs ∨ instr.mnem = .csrrsi ∨ instr.mnem = .csrrc ∨
      instr.mnem = .csrrci) ∧ instr.regSrc1 = x0 ↔ ¬ instr.csrWrites := by
    unfold RiscInstr.csrWrites
    rw [not_not]
    simp only [List.mem_cons, List.not_mem_nil, or_false]
  dsimp only
  by_cases hwrites : instr.csrWrites
  · have hfcsr : (s.step instr).fcsr = fcsrInsert instr.imm s.fcsr
        (instr.csrResult (fcsrView instr.imm s.fcsr) (instr.csrSource s.guest)) := if_pos hwrites
    have hvalue := hround
    unfold FcsrState.Rounds at hvalue
    rw [hfcsr, ← hm] at hvalue
    obtain ⟨m', hwrite, hof, hother⟩ := writeFcsr_eq flags himm m _ hvalue
    refine ⟨m', ?_, by rw [hof, hfcsr, hm], hother⟩
    rw [hm] at hwrite
    rw [if_pos (fun hskip => hcond.1 hskip hwrites), hwrite]
  · -- the register is only read
    have hfcsr : (s.step instr).fcsr = s.fcsr := if_neg hwrites
    refine ⟨m, ?_, by rw [hm, hfcsr], rfl⟩
    rw [if_neg (not_not.2 (hcond.2 hwrites))]

/-- The run of a sequence of accesses follows that of the register. -/
theorem runManualCSRR_follows (instrs : List RiscInstr) (s : FcsrState) (m : BitVec 32)
    (hinstrs : ∀ instr ∈ instrs, instr.IsFcsrAccess) (hzero : s.guest.reg x0 = 0#64)
    (hm : fcsrOf m = s.fcsr) (hround : s.RoundsAlong instrs) :
    ∃ m', runManualCSRR flags (instrs.map Translate.markCsr) (s.guest.reg, m) =
        .ok ((s.run instrs).guest.reg, m') ∧
      fcsrOf m' = (s.run instrs).fcsr ∧ m' &&& otherBits = m &&& otherBits := by
  -- every access leaves a state like the one it starts in
  induction instrs generalizing s m with
  | nil => exact ⟨m, rfl, hm, rfl⟩
  | cons instr instrs ih =>
      obtain ⟨hfirst, hrest⟩ := hround
      have haccess := hinstrs instr (List.mem_cons_self ..)
      obtain ⟨m', hstep, hof, hother⟩ := manualCSRR_step flags haccess s hzero m hm hfirst
      obtain ⟨m'', hrun, hlast, hothers⟩ := ih (s.step instr) m'
        (fun i hi => hinstrs i (List.mem_cons_of_mem _ hi))
        ((step_reg_zero s instr).trans hzero) hof hrest
      refine ⟨m'', ?_, hlast, hothers.trans hother⟩
      show (execManualCSRR flags (Translate.markCsr instr) (s.guest.reg, m) >>= _) = _
      rw [(execManualCSRR_marked flags haccess _).2, hstep]
      exact hrun

/-- A sequence of accesses behaves as one register of eight bits: each returns what the register
shows before it, and afterwards any view reads what the register holds. -/
theorem manualCSRR_run (instrs : List RiscInstr) (g : GuestState) (m : BitVec 32)
    (hinstrs : ∀ instr ∈ instrs, instr.IsFcsrAccess) (hzero : g.reg x0 = 0#64)
    (hround : (FcsrState.mk g (fcsrOf m)).RoundsAlong instrs) :
    ∃ m', runManualCSRR flags (instrs.map Translate.markCsr) (g.reg, m) =
        .ok (((FcsrState.mk g (fcsrOf m)).run instrs).guest.reg, m') ∧
      (∀ imm ∈ [1#64, 2#64, 3#64], loadFcsr flags imm m' =
        .ok ((fcsrView imm ((FcsrState.mk g (fcsrOf m)).run instrs).fcsr).setWidth 32)) ∧
      m' &&& otherBits = m &&& otherBits := by
  obtain ⟨m', hrun, hof, hother⟩ :=
    runManualCSRR_follows flags instrs (FcsrState.mk g (fcsrOf m)) m hinstrs hzero rfl hround
  refine ⟨m', hrun, fun imm himm => ?_, hother⟩
  rw [loadFcsr_eq flags himm, hof]

/-- `csrrwi a0, frm, 1`. -/
def truncateMode : RiscInstr := ⟨0x1000#64, .csrrwi, .system, 1, 0, 10, 2#64⟩

/-- `csrrs a1, fcsr, a1`. -/
def setFlags : RiscInstr := ⟨0x1004#64, .csrrs, .system, 11, 0, 11, 3#64⟩

theorem manualCSRR_run_mixed :
    ∃ m', runManualCSRR {} ([truncateMode, setFlags].map Translate.markCsr)
        (fun r => if r = 11 then 0x5#64 else 0#64, 0x5fa0#32) =
        .ok (((FcsrState.mk ⟨fun r => if r = 11 then 0x5#64 else 0#64, fun _ => 0#8⟩
          (fcsrOf 0x5fa0#32)).run [truncateMode, setFlags]).guest.reg, m') ∧
      (∀ imm ∈ [1#64, 2#64, 3#64], loadFcsr {} imm m' =
        .ok ((fcsrView imm ((FcsrState.mk ⟨fun r => if r = 11 then 0x5#64 else 0#64, fun _ => 0#8⟩
          (fcsrOf 0x5fa0#32)).run [truncateMode, setFlags]).fcsr).setWidth 32)) ∧
      m' &&& otherBits = 0x5fa0#32 &&& otherBits :=
  manualCSRR_run {} [truncateMode, setFlags] ⟨_, fun _ => 0#8⟩ 0x5fa0#32
    (by unfold RiscInstr.IsFcsrAccess; decide) rfl
    ⟨by unfold FcsrState.Rounds; decide, by unfold FcsrState.Rounds; decide, trivial⟩

end Accesses

end RiaJit.Runtime
