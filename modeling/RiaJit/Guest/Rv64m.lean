import RiaJit.Guest.Rv64i
import RiaJit.X86.Machine
import Mathlib.Data.Int.Init

/-!
# Multiplication and division of the guest

The upper halves of products and the quotients and remainders of the M extension, by the
RISC-V specification, and how the host's instructions compute them.
-/

set_option autoImplicit false

namespace RiaJit

/-! ## Upper halves of products -/

/-- The upper 64 bits of a 128-bit product. -/
def upperHalf (product : BitVec 128) : BitVec 64 := product.extractLsb' 64 64

/-- `MULH`, signed by signed. -/
def mulHigh (a b : BitVec 64) : BitVec 64 := upperHalf (a.signExtend 128 * b.signExtend 128)

/-- `MULHSU`, signed by unsigned. -/
def mulHighSigned (a b : BitVec 64) : BitVec 64 := upperHalf (a.signExtend 128 * b.setWidth 128)

/-- `MULHU`, unsigned by unsigned. -/
def mulHighUnsigned (a b : BitVec 64) : BitVec 64 := upperHalf (a.setWidth 128 * b.setWidth 128)

/-! ## Quotients and remainders -/

section Division

variable {w : Nat}

/-- The most negative value by `-1`. -/
def Overflows (a b : BitVec w) : Prop := a = BitVec.intMin w ∧ b = BitVec.allOnes w

instance (a b : BitVec w) : Decidable (Overflows a b) := inferInstanceAs (Decidable (_ ∧ _))

/-- `DIV`: all bits set for a divisor of zero, the dividend on overflow. -/
def divSigned (a b : BitVec w) : BitVec w :=
  if b = 0#w then BitVec.allOnes w
  else if Overflows a b then a
  else BitVec.ofInt w (a.toInt.tdiv b.toInt)

/-- `REM`: the dividend for a divisor of zero, zero on overflow. -/
def remSigned (a b : BitVec w) : BitVec w :=
  if b = 0#w then a
  else if Overflows a b then 0#w
  else BitVec.ofInt w (a.toInt.tmod b.toInt)

/-- `DIVU`. -/
def divUnsigned (a b : BitVec w) : BitVec w := if b = 0#w then BitVec.allOnes w else a / b

/-- `REMU`. -/
def remUnsigned (a b : BitVec w) : BitVec w := if b = 0#w then a else a % b

end Division

/-- Which result of a division is wanted. -/
inductive DivPart where
  | quotient | remainder
  deriving DecidableEq, Repr

/-- The division of either kind that gives a part. -/
def divide (signed : Bool) (part : DivPart) {w : Nat} (a b : BitVec w) : BitVec w :=
  match signed, part with
  | true, .quotient => divSigned a b
  | true, .remainder => remSigned a b
  | false, .quotient => divUnsigned a b
  | false, .remainder => remUnsigned a b

/-- Every division by zero. -/
theorem divide_zero (signed : Bool) (part : DivPart) {w : Nat} (a : BitVec w) :
    divide signed part a 0#w =
      match part with
      | .quotient => BitVec.allOnes w
      | .remainder => a := by
  unfold divide divSigned remSigned divUnsigned remUnsigned
  cases signed with
  | true =>
      cases part with
      | quotient => simp
      | remainder => simp
  | false =>
      cases part with
      | quotient => simp
      | remainder => simp

/-- The division of the given size: a 32-bit result is sign extended. -/
def divideSized (size : X86.OpSize) (signed : Bool) (part : DivPart) (a b : BitVec 64) :
    BitVec 64 :=
  match size with
  | .s64 => divide signed part a b
  | .s32 => sext32 (divide signed part (a.setWidth 32) (b.setWidth 32))

/-- The value of `rd` after a multiplication or a division of the M extension; `none` for an
instruction that is not of this kind. -/
def RiscInstr.mulDivResult (instr : RiscInstr) (a b : BitVec 64) : Option (BitVec 64) :=
  match instr.mnem with
  | .mulh => some (mulHigh a b)
  | .mulhsu => some (mulHighSigned a b)
  | .mulhu => some (mulHighUnsigned a b)
  | .div => some (divSigned a b)
  | .divu => some (divUnsigned a b)
  | .rem => some (remSigned a b)
  | .remu => some (remUnsigned a b)
  | .divw => some (sext32 (divSigned (a.setWidth 32) (b.setWidth 32)))
  | .divuw => some (sext32 (divUnsigned (a.setWidth 32) (b.setWidth 32)))
  | .remw => some (sext32 (remSigned (a.setWidth 32) (b.setWidth 32)))
  | .remuw => some (sext32 (remUnsigned (a.setWidth 32) (b.setWidth 32)))
  | _ => none

/-! ## The host's instructions -/

section Host

open X86

/-- An unsigned factor is a signed one, with a multiple of `2 ^ 64` where its top bit is set. -/
theorem setWidth_eq_signExtend (b : BitVec 64) :
    b.setWidth 128 = b.signExtend 128 + (if b.msb then BitVec.twoPow 128 64 else 0#128) := by
  cases hmsb : b.msb with
  | false =>
      rw [BitVec.signExtend_eq_setWidth_of_msb_false hmsb]
      exact (BitVec.add_zero _).symm
  | true =>
      apply BitVec.eq_of_toNat_eq
      rw [if_pos rfl, BitVec.toNat_add, BitVec.toNat_twoPow, BitVec.toNat_setWidth,
        BitVec.toNat_signExtend, hmsb, BitVec.toNat_setWidth]
      have hlt := b.isLt
      simp only [if_true]
      omega

theorem upperHalf_add_mul (x : BitVec 128) (y : BitVec 64) :
    upperHalf (x + y.signExtend 128 * BitVec.twoPow 128 64) = upperHalf x + y := by
  apply BitVec.eq_of_toNat_eq
  unfold upperHalf
  rw [BitVec.extractLsb'_toNat, BitVec.toNat_add, BitVec.toNat_add, BitVec.toNat_mul,
    BitVec.toNat_twoPow, BitVec.extractLsb'_toNat, BitVec.toNat_signExtend, BitVec.toNat_setWidth,
    Nat.shiftRight_eq_div_pow, Nat.shiftRight_eq_div_pow]
  have hx := x.isLt
  have hy := y.isLt
  split <;> omega

/-- The correction of `translate_MULHSU`. -/
theorem mulHighSigned_eq (a b : BitVec 64) :
    mulHighSigned a b = mulHigh a b + (if b.msb then a else 0#64) := by
  unfold mulHighSigned mulHigh
  rw [setWidth_eq_signExtend b]
  cases b.msb with
  | false =>
      simp only [Bool.false_eq_true, if_false]
      rw [BitVec.add_zero, BitVec.add_zero]
  | true =>
      simp only [if_true]
      rw [BitVec.mul_add, upperHalf_add_mul]

section Division

variable {w : Nat} {a b : BitVec w}

/-- A dividend whose upper half is its sign. -/
theorem toInt_signFill_append (hw : 0 < w) (a : BitVec w) :
    (signFill a ++ a).toInt = a.toInt := by
  have hne : (w == 0) = false := beq_false_of_ne (by omega)
  rw [BitVec.toInt_append, hne, if_neg Bool.false_ne_true, BitVec.toInt_eq_msb_cond a]
  unfold signFill
  cases hmsb : a.msb with
  | false => simp
  | true =>
      rw [if_pos rfl, if_pos rfl, BitVec.toInt_allOnes, if_pos hw]
      push_cast
      omega

theorem tdiv_range (h : ¬ Overflows a b) :
    -2 ^ (w - 1) ≤ a.toInt.tdiv b.toInt ∧ a.toInt.tdiv b.toInt < 2 ^ (w - 1) := by
  have hne : a ≠ BitVec.intMin w ∨ b ≠ -1#w := by
    rw [BitVec.neg_one_eq_allOnes]
    exact not_and_or.1 h
  rw [← BitVec.toInt_sdiv_of_ne_or_ne a b hne]
  exact ⟨BitVec.le_toInt _, BitVec.toInt_lt⟩

theorem tdiv_overflow (hw : 0 < w) (h : Overflows a b) :
    a.toInt.tdiv b.toInt = 2 ^ (w - 1) := by
  obtain ⟨rfl, rfl⟩ := h
  rw [BitVec.toInt_intMin_of_pos hw, BitVec.toInt_allOnes, if_pos hw, Int.tdiv_neg, Int.tdiv_one,
    Int.neg_neg]

/-- `IDIV` after `CQO` faults where the divisor is zero and on overflow. -/
theorem signedDivide_signFill (hw : 0 < w) (a b : BitVec w) :
    signedDivide (signFill a) a b =
      if b = 0#w ∨ Overflows a b then none else some (divSigned a b, remSigned a b) := by
  unfold signedDivide
  dsimp only
  rw [toInt_signFill_append hw]
  by_cases hzero : b = 0#w
  · rw [if_pos (.inl hzero), if_pos (.inl hzero)]
  · by_cases hover : Overflows a b
    · rw [if_pos (.inr (.inr (Int.le_of_eq (tdiv_overflow hw hover).symm))), if_pos (.inr hover)]
    · obtain ⟨hlow, hhigh⟩ := tdiv_range hover
      rw [if_neg, if_neg (by simp [hzero, hover])]
      · unfold divSigned remSigned
        rw [if_neg hzero, if_neg hover, if_neg hzero, if_neg hover]
      · rintro (h | h | h)
        · exact hzero h
        · omega
        · omega

/-- `DIV` with an upper half of zero faults where the divisor is zero. -/
theorem unsignedDivide_zero (a b : BitVec w) :
    unsignedDivide 0#w a b =
      if b = 0#w then none else some (divUnsigned a b, remUnsigned a b) := by
  have happend : (0#w ++ a).toNat = a.toNat := by
    rw [BitVec.toNat_append, BitVec.toNat_ofNat, Nat.zero_mod, Nat.zero_shiftLeft, Nat.zero_or]
  unfold unsignedDivide
  dsimp only
  rw [happend]
  by_cases hzero : b = 0#w
  · rw [if_pos (.inl hzero), if_pos hzero]
  · have hlt : a.toNat / b.toNat < 2 ^ w := Nat.lt_of_le_of_lt (Nat.div_le_self ..) a.isLt
    rw [if_neg (by simp [hzero]; omega), if_neg hzero]
    unfold divUnsigned remUnsigned
    rw [if_neg hzero, if_neg hzero]
    congr 2
    · apply BitVec.eq_of_toNat_eq
      rw [BitVec.toNat_ofNat, BitVec.toNat_udiv, Nat.mod_eq_of_lt hlt]
    · apply BitVec.eq_of_toNat_eq
      have hle : a.toNat % b.toNat < 2 ^ w := Nat.lt_of_le_of_lt (Nat.mod_le ..) a.isLt
      rw [BitVec.toNat_ofNat, BitVec.toNat_umod, Nat.mod_eq_of_lt hle]

end Division

end Host

end RiaJit
