import RiaJit.Guest.Rv64i
import RiaJit.Lib.Ieee

/-!
# Floating-point instructions of the guest

What the instructions of the F and D extensions give that compare, classify, convert and move
numbers, by the RISC-V specification, on the bit patterns of a format.
-/

set_option autoImplicit false

namespace RiaJit

open Ieee

/-- `FEQ`, `FLT` and `FLE`. -/
inductive FpRelation where
  | eq | lt | le
  deriving DecidableEq, Repr

/-- `FSGNJ`, `FSGNJN` and `FSGNJX`. -/
inductive SignRule where
  | j | jn | jx
  deriving DecidableEq, Repr

/-- `FMIN` and `FMAX`. -/
inductive Extremum where
  | min | max
  deriving DecidableEq, Repr

section Scalars

variable {w : Nat} (f : FloatFormat w)

/-- Whether a relation holds of two numbers. -/
def FpRelation.holds (rel : FpRelation) (a b : BitVec w) : Bool :=
  match rel with
  | .eq => f.eq a b
  | .lt => f.lt a b
  | .le => f.le a b

/-- The sign that is injected. -/
def SignRule.sign (rule : SignRule) (a b : BitVec w) : Bool :=
  match rule with
  | .j => b.msb
  | .jn => !b.msb
  | .jx => a.msb ^^ b.msb

/-- The magnitude of the first operand with another sign. -/
def SignRule.inject (rule : SignRule) (a b : BitVec w) : BitVec w :=
  withSign (rule.sign a b) (magnitude a)

/-- A pattern whose sign is the one that is injected. -/
def SignRule.word (rule : SignRule) (a b : BitVec w) : BitVec w :=
  match rule with
  | .j => b
  | .jn => ~~~b
  | .jx => b ^^^ a

/-- The injection under masks for the sign and for the other bits. -/
theorem SignRule.inject_eq (hw : 0 < w) (rule : SignRule) (a b : BitVec w) :
    rule.inject a b = a &&& ~~~BitVec.intMin w ||| rule.word a b &&& BitVec.intMin w := by
  have hsign : (rule.word a b).msb = rule.sign a b := by
    cases rule with
    | j => rfl
    | jn => simp [SignRule.word, SignRule.sign, hw]
    | jx => simp [SignRule.word, SignRule.sign, Bool.xor_comm]
  rw [mask_sign, hsign]
  rfl

/-- The lesser or greater one of two numbers, negative zero being less than positive zero; the
number where the other operand is a NaN; the canonical NaN where both are. -/
def Extremum.of (ext : Extremum) (a b : BitVec w) : BitVec w :=
  if f.isNaN a then if f.isNaN b then f.canonicalNaN else b
  else if f.isNaN b then a
  else
    let aLess := key a < key b ∨ key a = key b ∧ a.msb = true
    match ext with
    | .min => if aLess then a else b
    | .max => if aLess then b else a

/-- The bit that `FCLASS` sets. -/
def fpClass (x : BitVec w) : Nat :=
  if f.isNaN x then if f.isQuiet x then 9 else 8
  else if f.isInfinite x then if x.msb then 0 else 7
  else if magnitude x = 0 then if x.msb then 3 else 4
  else if magnitude x < 2 ^ f.fracBits then if x.msb then 2 else 5
  else if x.msb then 1 else 6

/-- The class by the exponent under its mask and the fraction shifted to the top. -/
theorem fpClass_fields (hfrac : 0 < f.fracBits) (x : BitVec w) :
    fpClass f x =
      if x &&& BitVec.ofNat w f.infinity = 0#w then
        if x <<< (w - f.fracBits) = 0#w then if x.msb then 3 else 4
        else if x.msb then 2 else 5
      else if x &&& BitVec.ofNat w f.infinity = BitVec.ofNat w f.infinity then
        if x <<< (w - f.fracBits) = 0#w then if x.msb then 0 else 7
        else if (x <<< (w - f.fracBits)).msb then 9 else 8
      else if x.msb then 1 else 6 := by
  have hpos := Nat.two_pow_pos f.fracBits
  have htop : magnitude x < f.infinity + 2 ^ f.fracBits := by
    have hfits := f.fits
    have hle : 2 ^ f.fracBits ≤ 2 ^ (w - 1) := Nat.pow_le_pow_right (by decide) (by omega)
    have hlt := magnitude_lt x
    unfold FloatFormat.infinity
    omega
  have hmod : f.infinity % 2 ^ f.fracBits = 0 := by
    rw [infinity_eq]
    exact Nat.mul_mod_left _ _
  have hge : 2 ^ f.fracBits ≤ f.infinity := two_pow_le_infinity f
  simp only [exponent_zero_iff, exponent_ones_iff, fraction_zero_iff, fraction_msb f x hfrac]
  unfold fpClass FloatFormat.isQuiet FloatFormat.isNaN FloatFormat.isInfinite
  by_cases hzero : magnitude x < 2 ^ f.fracBits
  · have hmag : magnitude x % 2 ^ f.fracBits = magnitude x := Nat.mod_eq_of_lt hzero
    have hnan : ¬ f.infinity < magnitude x := by omega
    have hinf : ¬ magnitude x = f.infinity := by omega
    simp [hzero, hmag, hnan, hinf]
  · have hmag : magnitude x ≠ 0 := by omega
    by_cases hones : f.infinity ≤ magnitude x
    · have hfraction : magnitude x % 2 ^ f.fracBits = 0 ↔ magnitude x = f.infinity := by
        obtain ⟨k, hk⟩ := Nat.exists_eq_add_of_le hones
        rw [hk, Nat.add_mod, hmod, Nat.zero_add, Nat.mod_mod, Nat.mod_eq_of_lt (by omega)]
        omega
      by_cases hinf : magnitude x = f.infinity
      · have hbound : ¬ f.infinity < 2 ^ f.fracBits := by omega
        simp [hinf, hmod, hbound]
      · have hnan : f.infinity < magnitude x := by omega
        simp [hzero, hones, hfraction, hinf, hnan]
    · have hnan : ¬ f.infinity < magnitude x := by omega
      have hinf : ¬ magnitude x = f.infinity := by omega
      simp [hzero, hones, hmag, hnan, hinf]

end Scalars

/-! ## Integers -/

/-- `W`, `WU`, `L` and `LU`, the integers of `FCVT`. -/
inductive IntType where
  | w | wu | l | lu
  deriving DecidableEq, Repr

namespace IntType

/-- The least integer of the type. -/
def least : IntType → ℤ
  | .w => -2 ^ 31
  | .l => -2 ^ 63
  | .wu | .lu => 0

/-- The first integer above the type. -/
def bound : IntType → ℤ
  | .w => 2 ^ 31
  | .wu => 2 ^ 32
  | .l => 2 ^ 63
  | .lu => 2 ^ 64

/-- The integer in a register. -/
def source (t : IntType) (v : BitVec 64) : ℤ :=
  match t with
  | .w => (v.setWidth 32).toInt
  | .wu => (v.setWidth 32).toNat
  | .l => v.toInt
  | .lu => v.toNat

/-- An integer of the type in a register; one of 32 bits is sign extended, also if it has no
sign. -/
def toRegister (t : IntType) (z : ℤ) : BitVec 64 :=
  match t with
  | .w | .wu => sext32 (BitVec.ofInt 32 z)
  | .l | .lu => BitVec.ofInt 64 z

/-- The integer that a pattern is converted to: the rounded value, or the nearest bound if that is
not an integer of the type. -/
def convert {w : Nat} (t : IntType) (f : FloatFormat w) (mode : Mode) (x : BitVec w) : ℤ :=
  if f.isNaN x then t.bound - 1
  else if f.isInfinite x then if x.msb then t.least else t.bound - 1
  else max t.least (min (t.bound - 1) (mode.round (f.value x)))

end IntType

end RiaJit
