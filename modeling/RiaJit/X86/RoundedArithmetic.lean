import RiaJit.Lib.Rounding
import RiaJit.X86.FpMachine

/-!
# Rounded arithmetic

What the conversions rely on of the arithmetic of the SSE instructions: a sum of a scalar and
itself is exact where the format has it, and a difference is a correct rounding of the exact one.
An arithmetic that truncates meets both.
-/

set_option autoImplicit false

namespace RiaJit.X86

open Ieee

namespace SseArithmetic

/-- `ADDSS` and `ADDSD` of a register to itself are exact doubling. -/
def Doubles (ops : SseArithmetic) : Prop :=
  ∀ (form : FpForm) (mxcsr : BitVec 32) (x y : BitVec form.width),
    form.format.isFinite x = true → form.format.isFinite y = true → y.msb = x.msb →
      form.format.value y = 2 * form.format.value x → ops.arith .add form mxcsr x x = y

/-- `SUBSS` and `SUBSD` round the exact difference of finite scalars, in whichever mode, and leave
an infinity from which a finite scalar is subtracted. -/
structure Subtracts (ops : SseArithmetic) : Prop where
  finite : ∀ (form : FpForm) (mxcsr : BitVec 32) (x y : BitVec form.width),
    form.format.isFinite x = true → form.format.isFinite y = true →
      form.format.Rounds (form.format.value x - form.format.value y) (ops.arith .sub form mxcsr x y)
  infinite : ∀ (form : FpForm) (mxcsr : BitVec 32) (x y : BitVec form.width),
    form.format.isInfinite x = true → form.format.isFinite y = true →
      ops.arith .sub form mxcsr x y = x

end SseArithmetic

/-- The biases of the formats are 127 and 1023. -/
theorem bias_large (form : FpForm) : 64 ≤ form.format.bias ∧ form.format.fracBits + 11 ≤ 64 := by
  cases form <;> decide

/-- The pattern of an unsigned integer, rounded. -/
theorem value_convertFromInt (form : FpForm) (mode : Mode) {n : Nat} (hn : n < 2 ^ 64) :
    form.format.isFinite (convertFromInt form mode n) = true ∧
      (convertFromInt form mode n).msb = false ∧
      form.format.value (convertFromInt form mode n) =
        mode.toBits (form.format.fracBits + 1) (n : ℤ) := by
  obtain ⟨hbias, hfrac⟩ := bias_large form
  exact value_toBits mode hn hbias (by omega)

/-- An integer of `2^63` and above is converted at half of its size, with a sticky bit. -/
theorem convertFromInt_sticky {ops : SseArithmetic} (hdoubles : ops.Doubles) (form : FpForm)
    (mode : Mode) (mxcsr : BitVec 32) {n : Nat} (hlo : 2 ^ 63 ≤ n) (hhi : n < 2 ^ 64) :
    let x := convertFromInt form mode (sticky n : ℤ)
    ops.arith .add form mxcsr x x = convertFromInt form mode n := by
  obtain ⟨hbias, hfrac⟩ := bias_large form
  have hhalf : sticky n < 2 ^ 63 := (sticky_bounds (k := 62) hlo hhi).2
  obtain ⟨hfinite, hmsb, hvalue⟩ := value_convertFromInt form mode hhi
  obtain ⟨hfinite', hmsb', hvalue'⟩ := value_convertFromInt form mode
    (lt_trans hhalf (by decide : 2 ^ 63 < 2 ^ 64))
  refine hdoubles form mxcsr _ _ hfinite' hfinite (hmsb.trans hmsb'.symm) ?_
  rw [hvalue, hvalue', ← toBits_sticky mode (k := 62) hlo hhi (by omega)]
  push_cast
  rfl

/-! ## Differences from the bias -/

/-- `2^63`. -/
def biasPattern : (form : FpForm) → BitVec form.width
  | .s => 0x5f000000#32
  | .d => 0x43e0000000000000#64

theorem value_biasPattern (form : FpForm) :
    form.format.isFinite (biasPattern form) = true ∧
      form.format.value (biasPattern form) = 2 ^ 63 := by
  obtain ⟨hbias, hfrac⟩ := bias_large form
  have hholds := holds_mul form.format (m := 1) (s := 63) Nat.one_le_two_pow
    (by cases form <;> decide)
  obtain ⟨hfinite, -, hvalue⟩ := value_ofInt (by omega) hholds
  have hpattern : biasPattern form = form.format.ofInt ((1 * 2 ^ 63 : Nat) : ℤ) := by
    cases form <;> rfl
  rw [hpattern]
  refine ⟨hfinite, ?_⟩
  rw [hvalue]
  push_cast
  ring

/-- What a number of `2^63` or more is converted to after the bias was subtracted. -/
def biasedValue (form : FpForm) (mode : Mode) (x : BitVec form.width) : Option ℤ :=
  if form.format.isFinite x then some (mode.round (form.format.value x - 2 ^ 63)) else none

theorem indefiniteOr_above {w : Nat} {z : ℤ} (h : 2 ^ (w - 1) ≤ z) :
    indefiniteOr w (some z) = BitVec.intMin w := if_neg fun hrange => absurd hrange.2 (not_lt.2 h)

theorem indefiniteOr_round_above (mode : Mode) {w : Nat} {q : ℚ} (h : 2 ^ (w - 1) ≤ q) :
    indefiniteOr w (some (mode.round q)) = BitVec.intMin w := by
  apply indefiniteOr_above
  apply le_round
  push_cast
  exact h

/-- The difference is exact where its conversion is in range. -/
theorem convertToInt_sub {ops : SseArithmetic} (hsub : ops.Subtracts) (form : FpForm) (mode : Mode)
    (mxcsr : BitVec 32) {x : BitVec form.width}
    (hle : form.format.le (biasPattern form) x = true) :
    convertToInt form .s64 mode (ops.arith .sub form mxcsr x (biasPattern form)) =
      indefiniteOr 64 (biasedValue form mode x) := by
  obtain ⟨hbias, hvalue⟩ := value_biasPattern form
  obtain ⟨⟨-, hnumber⟩, hkey⟩ : (form.format.isNaN (biasPattern form) = false ∧
      form.format.isNaN x = false) ∧ key (biasPattern form) ≤ key x := by
    unfold FloatFormat.le at hle
    simpa using hle
  show indefiniteOr 64 (roundedValue form mode _) = _
  cases hfinite : form.format.isFinite x with
  | false =>
      -- an infinity is left as it is, so both sides are the integer indefinite
      have hinfinite : form.format.isInfinite x = true := by
        by_contra hnot
        have hx := (isFinite_iff form.format).2 ⟨hnumber, Bool.eq_false_iff.2 hnot⟩
        rw [hfinite] at hx
        exact Bool.false_ne_true hx
      rw [hsub.infinite form mxcsr _ _ hinfinite hbias]
      unfold roundedValue biasedValue
      rw [hfinite]
      rfl
  | true =>
      have hge : 2 ^ 63 ≤ form.format.value x := by
        rw [← hvalue]
        exact (value_le_iff form.format).2 hkey
      have hrounds := hsub.finite form mxcsr x (biasPattern form) hfinite hbias
      rw [hvalue] at hrounds
      have hresult : biasedValue form mode x =
          some (mode.round (form.format.value x - 2 ^ 63)) := if_pos hfinite
      rw [hresult]
      by_cases hlt : form.format.value x < 2 ^ (63 + 1)
      · -- within a factor of two of the bias the difference has a pattern of its own
        obtain ⟨c, hc, hdifference⟩ := exists_difference (by cases form <;> decide)
          (by cases form <;> decide) hge hlt
        rw [← hdifference] at hrounds ⊢
        obtain ⟨hsame, hfinite'⟩ := value_of_key form.format (hrounds.exact hc)
        unfold roundedValue
        rw [hfinite', hc, if_pos rfl, hsame]
      · -- too large either way
        have hfar : 2 ^ 63 ≤ form.format.value x - 2 ^ 63 := by
          have hge' := not_lt.1 hlt
          rw [pow_succ] at hge'
          linarith
        have hbelow := hrounds.below _ hbias (hvalue.trans_le hfar)
        have hresult' := (value_le_iff form.format).2 hbelow
        rw [hvalue] at hresult'
        rw [indefiniteOr_round_above mode (w := 64) hfar]
        unfold roundedValue
        split
        · exact indefiniteOr_round_above mode (w := 64) hresult'
        · rfl

/-! ## Truncation -/

/-- Sums, products and differences that are truncated, where a sum of zeros is negative if both
are. -/
def truncatingArithmetic : SseArithmetic where
  arith op form _ x y :=
    let f := form.format
    match op with
    | .add =>
        let sum := f.value x + f.value y
        f.truncate (if sum = 0 then x.msb && y.msb else decide (sum < 0)) sum
    | .sub =>
        let difference := f.value x - f.value y
        if f.isInfinite x then x else f.truncate (decide (difference < 0)) difference
    | .mul => f.truncate (x.msb ^^ y.msb) (f.value x * f.value y)
    | .div => f.truncate (x.msb ^^ y.msb) (f.value x / f.value y)
  sqrt _ _ x := x

/-- The unit with that arithmetic, which raises nothing. -/
def truncatingUnit : FpUnit := ⟨truncatingArithmetic, fun _ v => v.setWidth 32, fun _ _ _ _ => 0#6⟩

theorem not_infinite_of_finite {w : Nat} {f : FloatFormat w} {x : BitVec w}
    (h : f.isFinite x = true) : f.isInfinite x = false := ((isFinite_iff f).1 h).2

theorem truncatingArithmetic_commutes : truncatingArithmetic.Commutes := by
  constructor
  · intro form mxcsr x y
    simp only [truncatingArithmetic]
    rw [add_comm, Bool.and_comm]
  · intro form mxcsr x y
    simp only [truncatingArithmetic]
    rw [mul_comm, Bool.xor_comm]

theorem truncatingArithmetic_subtracts : truncatingArithmetic.Subtracts := by
  refine ⟨fun form mxcsr x y hx hy => ?_, fun form mxcsr x y hx _ => ?_⟩
  · show form.format.Rounds _ (if form.format.isInfinite x then x else form.format.truncate _ _)
    rw [not_infinite_of_finite hx, if_neg Bool.false_ne_true]
    apply truncate_rounds
    split
    · rename_i hneg
      exact le_of_lt (of_decide_eq_true hneg)
    · rename_i hnonneg
      exact not_lt.1 fun hneg => hnonneg (decide_eq_true hneg)
  · exact if_pos hx

theorem truncatingArithmetic_doubles : truncatingArithmetic.Doubles := by
  intro form mxcsr x y hx hy hmsb hvalue
  have hsum : form.format.value x + form.format.value x = form.format.value y := by
    rw [hvalue]
    ring
  show form.format.truncate _ (form.format.value x + form.format.value x) = y
  rw [hsum, Bool.and_self]
  have hsign : (if form.format.value y = 0 then x.msb else decide (form.format.value y < 0)) =
      y.msb := by
    split
    · exact hmsb.symm
    · rename_i hzero
      rw [Bool.eq_iff_iff, decide_eq_true_eq, value_neg_iff hzero]
  rw [hsign, truncate_value hy]

end RiaJit.X86
