import Mathlib.Algebra.Order.Field.Basic
import Mathlib.Data.Nat.Size
import Mathlib.Data.Rat.Floor
import Mathlib.Tactic.GCongr
import Mathlib.Tactic.Linarith
import Mathlib.Tactic.Positivity
import Mathlib.Tactic.Ring

/-!
# Binary floating-point formats

The bit patterns of an interchange format: a sign, a biased exponent and a fraction. The order
of numbers is the order of the patterns as signed magnitudes, and the exact value of a pattern is
a rational number on which rounding to an integer is defined.
-/

set_option autoImplicit false

namespace Ieee

/-- A format of `w` bits, by the width of its fraction. -/
structure FloatFormat (w : Nat) where
  fracBits : Nat
  fits : fracBits + 2 ≤ w

/-- The directions of rounding. -/
inductive Mode where
  | nearest | down | up | zero
  deriving DecidableEq, Repr

/-! ## Patterns -/

/-- The pattern without its sign. -/
def magnitude {w : Nat} (x : BitVec w) : Nat := x.toNat % 2 ^ (w - 1)

/-- The signed magnitude. Both zeros have the same. -/
def key {w : Nat} (x : BitVec w) : Int := if x.msb then -(magnitude x : Int) else magnitude x

namespace FloatFormat

variable {w : Nat} (f : FloatFormat w)

/-- The magnitude of the infinities: the exponent is all ones, the fraction zero. -/
def infinity : Nat := 2 ^ (w - 1) - 2 ^ f.fracBits

/-- The magnitude lies above the infinities. -/
def isNaN (x : BitVec w) : Bool := f.infinity < magnitude x

/-- The pattern is one of the two infinities. -/
def isInfinite (x : BitVec w) : Bool := magnitude x = f.infinity

/-- The magnitude lies below the infinities. -/
def isFinite (x : BitVec w) : Bool := magnitude x < f.infinity

/-- A NaN whose highest bit of the fraction is set. -/
def isQuiet (x : BitVec w) : Bool := f.isNaN x && x.getLsbD (f.fracBits - 1)

/-- The NaN that an operation gives where it has to choose one: positive, quiet, and no other
bit of the fraction set. -/
def canonicalNaN : BitVec w := BitVec.ofNat w (f.infinity + 2 ^ (f.fracBits - 1))

/-- Neither operand is a NaN, and the first is less. -/
def lt (x y : BitVec w) : Bool := !f.isNaN x && !f.isNaN y && key x < key y

/-- Neither operand is a NaN, and the first is at most the second. -/
def le (x y : BitVec w) : Bool := !f.isNaN x && !f.isNaN y && key x ≤ key y

/-- Neither operand is a NaN, and they are equal. -/
def eq (x y : BitVec w) : Bool := !f.isNaN x && !f.isNaN y && key x = key y

/-- Some operand is a NaN. -/
def unordered (x y : BitVec w) : Bool := f.isNaN x || f.isNaN y

/-! ## Values -/

/-- The exponent field, where that of a subnormal counts as one. -/
def exponentField (n : Nat) : Nat := max (n / 2 ^ f.fracBits) 1

/-- The significand of a magnitude as an integer. -/
def significand (n : Nat) : Nat := n - (f.exponentField n - 1) * 2 ^ f.fracBits

/-- What the exponent field is biased by. -/
def bias : Nat := 2 ^ (w - 2 - f.fracBits) - 1

/-- The value of a magnitude. -/
def absValue (n : Nat) : ℚ :=
  f.significand n * 2 ^ ((f.exponentField n : ℤ) - f.bias - f.fracBits)

/-- The exact value of a finite pattern. -/
def value (x : BitVec w) : ℚ :=
  if x.msb then -f.absValue (magnitude x) else f.absValue (magnitude x)

/-- The pattern is a rounding of the number: no finite pattern lies strictly between them. In
each direction, whatever the mode, a correct rounding is one. -/
structure Rounds (q : ℚ) (y : BitVec w) : Prop where
  number : f.isNaN y = false
  below : ∀ c, f.isFinite c = true → f.value c ≤ q → key c ≤ key y
  above : ∀ c, f.isFinite c = true → q ≤ f.value c → key y ≤ key c

end FloatFormat

/-! ## Rounding to integers -/

/-- The integer that a number is rounded to. -/
def Mode.round (mode : Mode) (q : ℚ) : ℤ :=
  match mode with
  | .down => ⌊q⌋
  | .up => ⌈q⌉
  | .zero => if 0 ≤ q then ⌊q⌋ else ⌈q⌉
  | .nearest =>
      if q - ⌊q⌋ < 1 / 2 then ⌊q⌋
      else if 1 / 2 < q - ⌊q⌋ then ⌊q⌋ + 1
      else if ⌊q⌋ % 2 = 0 then ⌊q⌋ else ⌊q⌋ + 1

/-- An integer rounded to `p` significant bits. -/
def Mode.toBits (mode : Mode) (p : Nat) (z : ℤ) : ℤ :=
  mode.round (z / 2 ^ (z.natAbs.size - p)) * 2 ^ (z.natAbs.size - p)

/-- The magnitude of a natural number that has no more significant bits than the format. -/
def FloatFormat.ofNat {w : Nat} (f : FloatFormat w) (n : Nat) : Nat :=
  if n = 0 then 0 else (n.log2 + f.bias - 1) * 2 ^ f.fracBits + n * 2 ^ f.fracBits / 2 ^ n.log2

/-- The pattern of an integer that has no more significant bits than the format. -/
def FloatFormat.ofInt {w : Nat} (f : FloatFormat w) (z : ℤ) : BitVec w :=
  BitVec.ofNat w (if z < 0 then 2 ^ (w - 1) + f.ofNat z.natAbs else f.ofNat z.natAbs)

/-! ## Signs -/

/-- A magnitude with a sign. -/
def withSign {w : Nat} (sign : Bool) (n : Nat) : BitVec w :=
  BitVec.ofNat w (n + if sign then 2 ^ (w - 1) else 0)

section Signs

variable {w : Nat}

/-- A magnitude has one bit less than the pattern. -/
theorem magnitude_lt (x : BitVec w) : magnitude x < 2 ^ (w - 1) := Nat.mod_lt _ (Nat.two_pow_pos _)

/-- The bits of a pattern with another sign. -/
theorem getLsbD_withSign (sign : Bool) (x : BitVec w) {i : Nat} (hi : i < w) :
    (withSign sign (magnitude x) : BitVec w).getLsbD i =
      if i = w - 1 then sign else x.getLsbD i := by
  have hlow : ∀ i, (magnitude x).testBit i = (decide (i < w - 1) && x.getLsbD i) := fun i =>
    Nat.testBit_mod_two_pow ..
  unfold withSign
  rw [BitVec.getLsbD_ofNat]
  cases sign with
  | false =>
      by_cases htop : i = w - 1
      · simp [hlow, htop]
      · have hlt : i < w - 1 := by omega
        simp [hi, hlow, htop, hlt]
  | true =>
      rw [if_pos rfl, Nat.add_comm]
      by_cases htop : i = w - 1
      · rw [htop, Nat.testBit_two_pow_add_eq, hlow]
        simp [← htop, hi]
      · have hlt : i < w - 1 := by omega
        rw [Nat.testBit_two_pow_add_gt hlt, hlow]
        simp [hi, htop, hlt]

/-- A pattern is its magnitude with its sign. -/
theorem withSign_msb (x : BitVec w) : withSign x.msb (magnitude x) = x := by
  apply BitVec.eq_of_getLsbD_eq
  intro i hi
  rw [getLsbD_withSign _ _ hi]
  split
  · rename_i htop
    rw [BitVec.msb_eq_getLsbD_last, htop]
  · rfl

/-- A sign put into a pattern under masks. -/
theorem mask_sign (x y : BitVec w) :
    x &&& ~~~BitVec.intMin w ||| y &&& BitVec.intMin w = withSign y.msb (magnitude x) := by
  apply BitVec.eq_of_getLsbD_eq
  intro i hi
  rw [getLsbD_withSign _ _ hi, BitVec.getLsbD_or, BitVec.getLsbD_and, BitVec.getLsbD_and,
    BitVec.getLsbD_not, BitVec.getLsbD_intMin]
  by_cases htop : i = w - 1
  · have hw : i + 1 = w := by omega
    rw [BitVec.msb_eq_getLsbD_last]
    simp [hw, ← htop]
  · have hw : ¬ i + 1 = w := by omega
    simp [hi, htop, hw]

end Signs

/-! ## Fields -/

section Fields

variable {w : Nat} (f : FloatFormat w) (x : BitVec w)

/-- The exponent of an infinity is all ones. -/
theorem infinity_eq : f.infinity = (2 ^ (w - 1 - f.fracBits) - 1) * 2 ^ f.fracBits := by
  have hsplit : w - 1 = w - 1 - f.fracBits + f.fracBits := by
    have := f.fits
    omega
  unfold FloatFormat.infinity
  conv_lhs => rw [hsplit, Nat.pow_add]
  rw [Nat.sub_mul, Nat.one_mul]

theorem two_pow_le_infinity : 2 ^ f.fracBits ≤ f.infinity := by
  have hfits := f.fits
  have hle : 2 ^ 1 ≤ 2 ^ (w - 1 - f.fracBits) := Nat.pow_le_pow_right (by decide) (by omega)
  rw [infinity_eq]
  exact Nat.le_mul_of_pos_left _ (by omega)

theorem infinity_lt : f.infinity < 2 ^ (w - 1) :=
  Nat.sub_lt (Nat.two_pow_pos _) (Nat.two_pow_pos _)

theorem ofNat_infinity : (BitVec.ofNat w f.infinity).toNat = f.infinity := by
  rw [BitVec.toNat_ofNat, Nat.mod_eq_of_lt]
  exact lt_of_lt_of_le (infinity_lt f) (Nat.pow_le_pow_right (by decide) (Nat.sub_le w 1))

/-- The pattern under the mask of the exponent. -/
theorem exponent_mask :
    (x &&& BitVec.ofNat w f.infinity).toNat = magnitude x / 2 ^ f.fracBits * 2 ^ f.fracBits := by
  have hfits := f.fits
  rw [BitVec.toNat_and, ofNat_infinity, infinity_eq]
  apply Nat.eq_of_testBit_eq
  intro i
  rw [Nat.testBit_and, Nat.testBit_mul_two_pow, Nat.testBit_mul_two_pow,
    Nat.testBit_two_pow_sub_one, Nat.testBit_div_two_pow]
  unfold magnitude
  rw [Nat.testBit_mod_two_pow]
  by_cases hi : f.fracBits ≤ i
  · have hsub : i - f.fracBits + f.fracBits = i := Nat.sub_add_cancel hi
    have hlt : i - f.fracBits < w - 1 - f.fracBits ↔ i < w - 1 := by omega
    simp [hi, hsub, hlt, Bool.and_comm]
  · simp [hi]

/-- Masking shows whether the exponent field is zero. -/
theorem exponent_zero_iff :
    x &&& BitVec.ofNat w f.infinity = 0#w ↔ magnitude x < 2 ^ f.fracBits := by
  rw [← BitVec.toNat_inj, exponent_mask, BitVec.toNat_zero, Nat.mul_eq_zero,
    Nat.div_eq_zero_iff]
  have hpos := Nat.two_pow_pos f.fracBits
  omega

/-- Masking shows whether the exponent field is all ones. -/
theorem exponent_ones_iff :
    x &&& BitVec.ofNat w f.infinity = BitVec.ofNat w f.infinity ↔ f.infinity ≤ magnitude x := by
  have hpos := Nat.two_pow_pos f.fracBits
  have hlt : magnitude x / 2 ^ f.fracBits < 2 ^ (w - 1 - f.fracBits) := by
    rw [Nat.div_lt_iff_lt_mul hpos, ← Nat.pow_add]
    have hsplit : w - 1 - f.fracBits + f.fracBits = w - 1 := by
      have := f.fits
      omega
    rw [hsplit]
    exact magnitude_lt x
  rw [← BitVec.toNat_inj, exponent_mask, ofNat_infinity, infinity_eq,
    Nat.mul_left_inj (Nat.ne_of_gt hpos), ← Nat.le_div_iff_mul_le hpos]
  omega

/-- A shift shows whether the fraction is zero. -/
theorem fraction_zero_iff : x <<< (w - f.fracBits) = 0#w ↔ magnitude x % 2 ^ f.fracBits = 0 := by
  have hfits := f.fits
  have hsplit : w - f.fracBits + f.fracBits = w := by omega
  unfold magnitude
  rw [Nat.mod_mod_of_dvd _ (Nat.pow_dvd_pow 2 (by omega)), ← BitVec.toNat_inj,
    BitVec.toNat_shiftLeft, BitVec.toNat_zero, Nat.shiftLeft_eq]
  have hpow : 2 ^ w = 2 ^ (w - f.fracBits) * 2 ^ f.fracBits := by rw [← Nat.pow_add, hsplit]
  have hpos := Nat.two_pow_pos (w - f.fracBits)
  rw [hpow, Nat.mul_comm, Nat.mul_mod_mul_left, Nat.mul_eq_zero]
  omega

/-- A shift brings the highest bit of the fraction to the front. -/
theorem fraction_msb (hpos : 0 < f.fracBits) :
    (x <<< (w - f.fracBits)).msb = x.getLsbD (f.fracBits - 1) := by
  have hfits := f.fits
  rw [BitVec.msb_eq_getLsbD_last, BitVec.getLsbD_shiftLeft]
  have hindex : w - 1 - (w - f.fracBits) = f.fracBits - 1 := by omega
  have hlt : w - 1 < w := by omega
  have hge : ¬ w - 1 < w - f.fracBits := by omega
  simp [hindex, hlt, hge]
end Fields

/-! ## The order of patterns -/

section Order

variable {w : Nat} (f : FloatFormat w) {x y : BitVec w}

/-- Without a NaN the order is that of the signed magnitudes. -/
theorem lt_of_ordered (h : f.unordered x y = false) : f.lt x y = decide (key x < key y) := by
  obtain ⟨hx, hy⟩ := Bool.or_eq_false_iff.1 h
  unfold FloatFormat.lt
  rw [hx, hy]
  rfl

theorem le_of_ordered (h : f.unordered x y = false) : f.le x y = decide (key x ≤ key y) := by
  obtain ⟨hx, hy⟩ := Bool.or_eq_false_iff.1 h
  unfold FloatFormat.le
  rw [hx, hy]
  rfl

theorem eq_of_ordered (h : f.unordered x y = false) : f.eq x y = decide (key x = key y) := by
  obtain ⟨hx, hy⟩ := Bool.or_eq_false_iff.1 h
  unfold FloatFormat.eq
  rw [hx, hy]
  rfl

/-- No relation holds of a NaN. -/
theorem lt_of_unordered (h : f.unordered x y = true) : f.lt x y = false := by
  unfold FloatFormat.lt
  rcases Bool.or_eq_true_iff.1 h with h | h
  · simp [h]
  · simp [h]

/-- A NaN is not below anything. -/
theorem le_of_unordered (h : f.unordered x y = true) : f.le x y = false := by
  unfold FloatFormat.le
  rcases Bool.or_eq_true_iff.1 h with h | h
  · simp [h]
  · simp [h]

/-- A NaN equals nothing. -/
theorem eq_of_unordered (h : f.unordered x y = true) : f.eq x y = false := by
  unfold FloatFormat.eq
  rcases Bool.or_eq_true_iff.1 h with h | h
  · simp [h]
  · simp [h]

/-- Both operands count alike. -/
theorem unordered_comm (x y : BitVec w) : f.unordered x y = f.unordered y x := Bool.or_comm _ _

/-- The first of two numbers is less if the second is neither less nor equal. -/
theorem not_lt_and_not_eq (x y : BitVec w) :
    (!(f.unordered y x || f.lt y x) && !(f.unordered y x || f.eq y x)) = f.lt x y := by
  have hcomm := unordered_comm f x y
  cases hyx : f.unordered y x with
  | true => simp [lt_of_unordered f (hcomm.trans hyx)]
  | false =>
      rw [lt_of_ordered f hyx, eq_of_ordered f hyx, lt_of_ordered f (hcomm.trans hyx)]
      by_cases hlt : key x < key y
      · simp [hlt, Int.not_lt.2 (Int.le_of_lt hlt), Int.ne_of_gt hlt]
      · by_cases hgt : key y < key x
        · simp [hlt, hgt]
        · have heq : key y = key x := by omega
          simp [heq]

/-- The first of two numbers is at most the second if the second is not less. -/
theorem not_lt (x y : BitVec w) : (!(f.unordered y x || f.lt y x)) = f.le x y := by
  have hcomm := unordered_comm f x y
  cases hyx : f.unordered y x with
  | true => simp [le_of_unordered f (hcomm.trans hyx)]
  | false =>
      rw [lt_of_ordered f hyx, le_of_ordered f (hcomm.trans hyx), Bool.false_or, ← decide_not]
      exact decide_eq_decide.2 Int.not_lt

/-- A pattern is determined by its key and its sign. -/
theorem eq_of_key (hkey : key x = key y) (hsign : x.msb = y.msb) : x = y := by
  unfold key at hkey
  have hmag : magnitude x = magnitude y := by
    rw [hsign] at hkey
    split at hkey
    · omega
    · omega
  rw [← withSign_msb x, ← withSign_msb y, hsign, hmag]

/-- The key leaves the sign open for zeros only. -/
theorem zeros_of_key (hkey : key x = key y) (hsign : x.msb ≠ y.msb) :
    magnitude x = 0 ∧ magnitude y = 0 := by
  have hflip : y.msb = !x.msb := Bool.eq_not_iff.2 hsign.symm
  unfold key at hkey
  rw [hflip] at hkey
  cases hx : x.msb with
  | false =>
      simp only [hx, Bool.not_false, Bool.false_eq_true, if_false, if_true] at hkey
      omega
  | true =>
      simp only [hx, Bool.not_true, Bool.false_eq_true, if_false, if_true] at hkey
      omega

theorem key_of_zero (h : magnitude x = 0) : key x = 0 := by
  unfold key
  rw [h]
  split <;> rfl

/-- A pattern is finite, infinite or a NaN. -/
theorem isFinite_iff : f.isFinite x = true ↔ f.isNaN x = false ∧ f.isInfinite x = false := by
  unfold FloatFormat.isFinite FloatFormat.isNaN FloatFormat.isInfinite
  simp only [decide_eq_true_eq, decide_eq_false_iff_not]
  omega

end Order

end Ieee
