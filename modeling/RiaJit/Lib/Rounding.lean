import RiaJit.Lib.Ieee

/-!
# Rounding of integers and values of patterns

Rounding to an integer looks only at the halves between which a number lies, so the low bits of
an integer may be put together in one before it is rounded to fewer significant bits. Patterns
are ordered as their values are, which fixes an exact result and bounds an inexact one.
-/

set_option autoImplicit false

namespace Ieee

/-! ## Halves -/

section Halves

variable {q q' : ℚ}

/-- Rounding down loses nothing by rounding at twice the precision first. -/
theorem floor_half (q : ℚ) : ⌊q⌋ = ⌊2 * q⌋ / 2 := by
  have hdiv := Int.floor_div_natCast (2 * q) 2
  rw [Nat.cast_ofNat, mul_div_cancel_left₀ q (two_ne_zero)] at hdiv
  exact hdiv

/-- Nor does rounding up. -/
theorem ceil_half (q : ℚ) : ⌈q⌉ = -(-⌈2 * q⌉ / 2) := by
  have hdiv := floor_half (-q)
  rw [mul_neg, Int.floor_neg, Int.floor_neg] at hdiv
  omega

/-- A number is below the middle of two integers, if its double is below an odd number. -/
theorem below_half_iff (q : ℚ) : q - ⌊q⌋ < 1 / 2 ↔ ⌊2 * q⌋ < 2 * ⌊q⌋ + 1 := by
  rw [Int.floor_lt]
  push_cast
  constructor
  · intro h
    linarith
  · intro h
    linarith

/-- The same above the middle. -/
theorem above_half_iff (q : ℚ) : 1 / 2 < q - ⌊q⌋ ↔ 2 * ⌊q⌋ + 1 < ⌈2 * q⌉ := by
  rw [Int.lt_ceil]
  push_cast
  constructor
  · intro h
    linarith
  · intro h
    linarith

theorem nonneg_iff_half (q : ℚ) : 0 ≤ q ↔ 0 ≤ ⌊2 * q⌋ := by
  rw [Int.floor_nonneg]
  constructor
  · intro h
    linarith
  · intro h
    linarith

/-- Numbers between the same halves are rounded to the same integer. -/
theorem round_eq_of_halves (mode : Mode) (hfloor : ⌊2 * q⌋ = ⌊2 * q'⌋)
    (hceil : ⌈2 * q⌉ = ⌈2 * q'⌉) : mode.round q = mode.round q' := by
  have hdown : ⌊q⌋ = ⌊q'⌋ := by rw [floor_half q, floor_half q', hfloor]
  have hup : ⌈q⌉ = ⌈q'⌉ := by rw [ceil_half q, ceil_half q', hceil]
  cases mode with
  | down => exact hdown
  | up => exact hup
  | zero =>
      have hsign : 0 ≤ q ↔ 0 ≤ q' := by rw [nonneg_iff_half, nonneg_iff_half, hfloor]
      simp only [Mode.round, hsign, hdown, hup]
  | nearest =>
      -- the halves are compared while the floor is still that of the number itself
      simp only [Mode.round, below_half_iff, above_half_iff]
      rw [hfloor, hceil, hdown]

/-- A quotient of natural numbers is rounded down by division. -/
theorem floor_div (n d : Nat) : ⌊(n : ℚ) / d⌋ = (n / d : Nat) := by
  have hdiv := Int.floor_div_natCast (n : ℚ) d
  rw [Int.floor_natCast] at hdiv
  rw [hdiv]
  rfl

/-- It is rounded up by division and the remainder. -/
theorem ceil_div {n d : Nat} (hd : 0 < d) :
    ⌈(n : ℚ) / d⌉ = if n % d = 0 then ((n / d : Nat) : ℤ) else (n / d : Nat) + 1 := by
  have hd' : (0 : ℚ) < d := Nat.cast_pos.2 hd
  have hsplit : (n : ℚ) = d * (n / d : Nat) + (n % d : Nat) := by
    exact_mod_cast (Nat.div_add_mod n d).symm
  have hmod : n % d < d := Nat.mod_lt n hd
  generalize n / d = c at *
  generalize n % d = r at *
  rw [Int.ceil_eq_iff, lt_div_iff₀ hd', div_le_iff₀ hd']
  split
  · rename_i hzero
    rw [hzero, Nat.cast_zero, add_zero] at hsplit
    rw [hsplit, Int.cast_natCast]
    constructor
    · linarith
    · linarith
  · rename_i hpos
    have hpos' : (0 : ℚ) < r := Nat.cast_pos.2 (Nat.pos_of_ne_zero hpos)
    have hlt : (r : ℚ) < d := Nat.cast_lt.2 hmod
    push_cast
    constructor
    · linarith
    · linarith

end Halves

/-! ## Sticky bits -/

/-- Half of a number, where the bit that is lost is put into the lowest one that is left. -/
def sticky (n : Nat) : Nat := n / 2 ||| n % 2

section Sticky

variable {n k p : Nat}

/-- The sticky shift is a shift but for its lowest bit. -/
theorem sticky_div_two (n : Nat) : sticky n / 2 = n / 4 := by
  have hlow : n % 2 / 2 = 0 := by omega
  unfold sticky
  rw [Nat.or_div_two, hlow, Nat.or_zero, Nat.div_div_eq_div_mul]

/-- The lowest bit is clear, if no bit was lost. -/
theorem sticky_mod_two (n : Nat) : sticky n % 2 = 0 ↔ n % 4 = 0 := by
  unfold sticky
  rw [Nat.or_mod_two_pow (n := 1)]
  simp only [pow_one, Nat.or_eq_zero_iff]
  omega

/-- The number and its sticky half lie between the same multiples. -/
theorem sticky_div (n k : Nat) : sticky n / 2 ^ (k + 1) = n / 2 ^ (k + 2) := by
  rw [pow_succ', ← Nat.div_div_eq_div_mul, sticky_div_two, Nat.div_div_eq_div_mul, pow_succ',
    pow_succ', ← Nat.mul_assoc]

/-- Divisibility by powers of two is kept, one power lower. -/
theorem sticky_mod (n k : Nat) : sticky n % 2 ^ (k + 1) = 0 ↔ n % 2 ^ (k + 2) = 0 := by
  have hquarter : 2 ^ (k + 2) = 4 * 2 ^ k := by
    rw [pow_succ', pow_succ', ← Nat.mul_assoc]
  rw [hquarter, pow_succ', Nat.mod_mul, Nat.mod_mul, sticky_div_two]
  have hmod := sticky_mod_two n
  have hfour : 4 * (n / 4 % 2 ^ k) = 0 ↔ n / 4 % 2 ^ k = 0 := by omega
  omega

/-- The sticky shift loses one bit of the length. -/
theorem sticky_bounds (hlo : 2 ^ (k + 1) ≤ n) (hhi : n < 2 ^ (k + 2)) :
    2 ^ k ≤ sticky n ∧ sticky n < 2 ^ (k + 1) := by
  rw [pow_succ'] at hlo
  rw [pow_succ' 2 (k + 1)] at hhi
  constructor
  · exact le_trans (by omega) Nat.left_le_or
  · refine Nat.or_lt_two_pow (by omega) (lt_of_lt_of_le (Nat.mod_lt n (by decide)) ?_)
    exact Nat.pow_le_pow_right (n := 2) (by decide) (Nat.le_add_left 1 k)

/-- Three bits below the last significant one are enough for the sticky bit. -/
theorem round_sticky (mode : Mode) (n k : Nat) :
    mode.round ((sticky n : ℚ) / 2 ^ (k + 2)) = mode.round ((n : ℚ) / 2 ^ (k + 3)) := by
  have htwice : ∀ m j : Nat, 2 * ((m : ℚ) / 2 ^ (j + 1)) = m / (2 ^ j : Nat) := by
    intro m j
    rw [pow_succ]
    push_cast
    field_simp
  have hpos : ∀ j, 0 < 2 ^ j := fun j => Nat.two_pow_pos j
  apply round_eq_of_halves
  · rw [htwice, htwice, floor_div, floor_div, sticky_div]
  · rw [htwice, htwice, ceil_div (hpos _), ceil_div (hpos _), sticky_div]
    simp only [sticky_mod]

theorem size_eq (hlo : 2 ^ k ≤ n) (hhi : n < 2 ^ (k + 1)) : n.size = k + 1 := by
  have hle := Nat.size_le.2 hhi
  have hlt := Nat.lt_size.2 hlo
  omega

/-- The sticky half of a number is rounded to half of what the number is rounded to. -/
theorem toBits_sticky (mode : Mode) (hlo : 2 ^ (k + 1) ≤ n) (hhi : n < 2 ^ (k + 2))
    (hp : p + 1 ≤ k) : 2 * mode.toBits p (sticky n : ℤ) = mode.toBits p (n : ℤ) := by
  obtain ⟨hlo', hhi'⟩ := sticky_bounds hlo hhi
  obtain ⟨j, rfl⟩ : ∃ j, k = p + 1 + j := ⟨k - (p + 1), by omega⟩
  have hshift : (sticky n).size - p = j + 2 := by
    rw [size_eq hlo' hhi']
    omega
  have hshift' : n.size - p = j + 3 := by
    rw [size_eq hlo hhi]
    omega
  unfold Mode.toBits
  rw [Int.natAbs_natCast, Int.natAbs_natCast, hshift, hshift', Int.cast_natCast,
    Int.cast_natCast, round_sticky, pow_succ (2 : ℤ) (j + 2)]
  ring

end Sticky

/-! ## Values -/

section Values

variable {w : Nat} (f : FloatFormat w) {x y : BitVec w}

/-- The exponent field counts no more than the magnitude. -/
theorem exponent_mul_le (n : Nat) : (f.exponentField n - 1) * 2 ^ f.fracBits ≤ n := by
  have hle : f.exponentField n - 1 ≤ n / 2 ^ f.fracBits := by
    unfold FloatFormat.exponentField
    generalize n / 2 ^ f.fracBits = c
    omega
  exact le_trans (Nat.mul_le_mul_right _ hle) (Nat.div_mul_le_self n _)

/-- A magnitude is its exponent and its significand. -/
theorem significand_add (n : Nat) :
    (f.exponentField n - 1) * 2 ^ f.fracBits + f.significand n = n :=
  Nat.add_sub_of_le (exponent_mul_le f n)

/-- From one magnitude to the next one the exponent is kept, or the fraction starts again. -/
theorem exponent_succ (n : Nat) : f.exponentField (n + 1) = f.exponentField n ∨
    f.exponentField (n + 1) = f.exponentField n + 1 ∧
      n + 1 = (f.exponentField n + 1) * 2 ^ f.fracBits := by
  have hpos := Nat.two_pow_pos f.fracBits
  unfold FloatFormat.exponentField
  rw [Nat.succ_div]
  by_cases hdvd : 2 ^ f.fracBits ∣ n + 1
  · rw [if_pos hdvd]
    by_cases hzero : n / 2 ^ f.fracBits = 0
    · left
      omega
    · right
      have hmax : max (n / 2 ^ f.fracBits) 1 = n / 2 ^ f.fracBits :=
        max_eq_left (Nat.pos_of_ne_zero hzero)
      have hexact : (n + 1) / 2 ^ f.fracBits = n / 2 ^ f.fracBits + 1 := by
        rw [Nat.succ_div, if_pos hdvd]
      rw [hmax, ← hexact, Nat.div_mul_cancel hdvd]
      exact ⟨by omega, rfl⟩
  · left
    rw [if_neg hdvd, Nat.add_zero]

theorem absValue_zero : f.absValue 0 = 0 := by
  unfold FloatFormat.absValue FloatFormat.significand
  simp

/-- The next magnitude has a greater value. -/
theorem absValue_succ (n : Nat) : f.absValue n < f.absValue (n + 1) := by
  have hn := significand_add f n
  have hsucc := significand_add f (n + 1)
  have hexponent := exponent_succ f n
  have hone : 1 ≤ f.exponentField n := le_max_right _ 1
  unfold FloatFormat.absValue
  generalize f.significand n = s at *
  generalize f.significand (n + 1) = s' at *
  generalize f.exponentField n = e at *
  rcases hexponent with heq | ⟨heq, hnext⟩
  · rw [heq] at hsucc ⊢
    have hs : s' = s + 1 := by omega
    have hunit : (0 : ℚ) < 2 ^ ((e : ℤ) - f.bias - f.fracBits) :=
      zpow_pos two_pos _
    rw [hs]
    push_cast
    linarith
  · rw [heq] at hsucc ⊢
    have hunit : (0 : ℚ) < 2 ^ ((e : ℤ) - f.bias - f.fracBits) :=
      zpow_pos two_pos _
    have hdouble : (2 : ℚ) ^ (((e + 1 : Nat) : ℤ) - f.bias - f.fracBits) =
        2 * 2 ^ ((e : ℤ) - f.bias - f.fracBits) := by
      rw [← zpow_one_add₀ two_ne_zero]
      congr 1
      push_cast
      ring
    -- all ones are followed by a one and zeros, with the next exponent
    have hlt : s < 2 * s' := by
      obtain ⟨d, rfl⟩ : ∃ d, e = d + 1 := ⟨e - 1, by omega⟩
      have hs' : s' = 2 ^ f.fracBits := by
        rw [hnext, Nat.add_sub_cancel, Nat.add_mul (d + 1) 1, Nat.one_mul] at hsucc
        exact Nat.add_left_cancel hsucc
      rw [Nat.add_sub_cancel] at hn
      rw [Nat.add_mul, Nat.one_mul, Nat.add_mul, Nat.one_mul] at hnext
      omega
    rw [hdouble]
    have hlt' : (s : ℚ) < 2 * s' := by exact_mod_cast hlt
    nlinarith

/-- So the values are ordered as the magnitudes. -/
theorem absValue_strictMono : StrictMono f.absValue := strictMono_nat_of_lt_succ (absValue_succ f)

theorem absValue_nonneg (n : Nat) : 0 ≤ f.absValue n := by
  rw [← absValue_zero f]
  exact (absValue_strictMono f).monotone (Nat.zero_le n)

/-- Patterns are ordered as their values. -/
theorem value_lt_iff : f.value x < f.value y ↔ key x < key y := by
  have hmono : ∀ m n, f.absValue m < f.absValue n ↔ m < n := fun m n =>
    (absValue_strictMono f).lt_iff_lt
  have hzero : ∀ n, 0 < f.absValue n ↔ 0 < n := fun n => by
    rw [← hmono, absValue_zero]
  have hx := absValue_nonneg f (magnitude x)
  have hy := absValue_nonneg f (magnitude y)
  unfold FloatFormat.value key
  cases x.msb with
  | false =>
      cases y.msb with
      | false =>
          simp only [Bool.false_eq_true, if_false, hmono]
          omega
      | true =>
          simp only [Bool.false_eq_true, if_false, if_true]
          constructor
          · intro h
            linarith
          · intro h
            omega
  | true =>
      cases y.msb with
      | false =>
          -- the two zeros have one value and one key
          simp only [Bool.false_eq_true, if_false, if_true]
          have hsum : f.absValue (magnitude x) + f.absValue (magnitude y) > 0 ↔
              0 < magnitude x ∨ 0 < magnitude y := by
            rw [← hzero, ← hzero]
            constructor
            · intro h
              by_contra hnone
              rw [not_or] at hnone
              linarith
            · intro h
              rcases h with h | h
              · linarith
              · linarith
          constructor
          · intro h
            have hpos := hsum.1 (by linarith)
            omega
          · intro h
            have hpos := hsum.2 (by omega)
            linarith
      | true =>
          simp only [if_true, neg_lt_neg_iff, hmono]
          omega

/-- The order of values is that of the signed magnitudes. -/
theorem value_le_iff : f.value x ≤ f.value y ↔ key x ≤ key y :=
  le_iff_le_iff_lt_iff_lt.2 (value_lt_iff f)

theorem magnitude_of_key (h : key x = key y) : magnitude x = magnitude y := by
  unfold key at h
  split at h
  · split at h
    · omega
    · omega
  · split at h
    · omega
    · omega

/-- Patterns with one key have one value, and both are finite or neither is. -/
theorem value_of_key (h : key x = key y) :
    f.value x = f.value y ∧ f.isFinite x = f.isFinite y := by
  refine ⟨le_antisymm ((value_le_iff f).2 h.le) ((value_le_iff f).2 h.ge), ?_⟩
  unfold FloatFormat.isFinite
  rw [magnitude_of_key h]

/-! ## Exact results -/

/-- A number that a finite pattern has is rounded to that pattern, up to the sign of a zero. -/
theorem FloatFormat.Rounds.exact {f : FloatFormat w} (hx : f.isFinite x = true)
    (hr : f.Rounds (f.value x) y) : key y = key x :=
  le_antisymm (hr.above x hx le_rfl) (hr.below x hx le_rfl)

/-! ## Integers -/

/-- The format has a pattern for the integer. -/
def FloatFormat.Holds (f : FloatFormat w) (n : Nat) : Prop :=
  2 ^ (n.log2 - f.fracBits) ∣ n ∧ n.log2 ≤ f.bias

/-- Where the range of the exponent ends. -/
theorem infinity_eq_bias (hbias : 0 < f.bias) :
    f.infinity = (2 * f.bias + 1) * 2 ^ f.fracBits := by
  have hfits := f.fits
  unfold FloatFormat.bias at hbias ⊢
  have hwidth : w - 1 - f.fracBits = w - 2 - f.fracBits + 1 := by
    have hne : w - 2 - f.fracBits ≠ 0 := fun hzero => by
      rw [hzero] at hbias
      exact absurd hbias (Nat.lt_irrefl 0)
    omega
  rw [infinity_eq, hwidth, pow_succ]
  congr 1
  omega

/-- The significand of an integer, with as many bits as the format has. -/
theorem significand_ofNat {n : Nat} (hn : n ≠ 0) (hdvd : 2 ^ (n.log2 - f.fracBits) ∣ n) :
    n * 2 ^ f.fracBits / 2 ^ n.log2 * 2 ^ n.log2 = n * 2 ^ f.fracBits ∧
      2 ^ f.fracBits ≤ n * 2 ^ f.fracBits / 2 ^ n.log2 ∧
      n * 2 ^ f.fracBits / 2 ^ n.log2 < 2 ^ f.fracBits * 2 := by
  have hpos := Nat.two_pow_pos n.log2
  have hfrac := Nat.two_pow_pos f.fracBits
  have hlo : 2 ^ n.log2 ≤ n := Nat.log2_self_le hn
  have hhi : n < 2 ^ n.log2 * 2 := Nat.lt_log2_self
  refine ⟨Nat.div_mul_cancel ?_, ?_, ?_⟩
  · by_cases hle : n.log2 ≤ f.fracBits
    · exact Nat.dvd_mul_left_of_dvd (Nat.pow_dvd_pow 2 hle) n
    · have hsplit : n.log2 = n.log2 - f.fracBits + f.fracBits := by omega
      conv_lhs => rw [hsplit, Nat.pow_add]
      exact Nat.mul_dvd_mul_right hdvd _
  · rw [Nat.le_div_iff_mul_le hpos, Nat.mul_comm]
    exact Nat.mul_le_mul_right _ hlo
  · rw [Nat.div_lt_iff_lt_mul hpos, Nat.mul_assoc, Nat.mul_comm (2 ^ f.fracBits), Nat.mul_comm 2]
    exact Nat.mul_lt_mul_of_pos_right hhi hfrac

variable {f} in
/-- A number that the format holds has a pattern of exactly its value. -/
theorem ofNat_holds (hbias : 0 < f.bias) {n : Nat} (hn : f.Holds n) :
    f.ofNat n < f.infinity ∧ f.absValue (f.ofNat n) = n := by
  have hfrac := Nat.two_pow_pos f.fracBits
  rw [infinity_eq_bias f hbias]
  by_cases hzero : n = 0
  · subst hzero
    refine ⟨Nat.mul_pos (Nat.succ_pos _) hfrac, ?_⟩
    show f.absValue 0 = _
    rw [absValue_zero, Nat.cast_zero]
  · obtain ⟨hexact, hlo, hhi⟩ := significand_ofNat f hzero hn.1
    have hpattern : f.ofNat n =
        (n.log2 + f.bias - 1) * 2 ^ f.fracBits + n * 2 ^ f.fracBits / 2 ^ n.log2 := if_neg hzero
    generalize n * 2 ^ f.fracBits / 2 ^ n.log2 = s at *
    obtain ⟨b, hb⟩ : ∃ b, f.bias = b + 1 := ⟨f.bias - 1, by omega⟩
    have hfield : n.log2 + f.bias - 1 = n.log2 + b := by omega
    rw [hfield] at hpattern
    -- the leading bit of the significand carries into the exponent's field
    have hexponent : f.exponentField (f.ofNat n) = n.log2 + f.bias := by
      have hone : s / 2 ^ f.fracBits = 1 := Nat.div_eq_of_lt_le (by omega) (by omega)
      unfold FloatFormat.exponentField
      rw [hpattern, Nat.add_comm, Nat.add_mul_div_right _ _ hfrac, hone]
      omega
    have hs : f.significand (f.ofNat n) = s := by
      unfold FloatFormat.significand
      rw [hexponent, hpattern, hfield, Nat.add_sub_cancel_left]
    constructor
    · have hle : n.log2 + b ≤ 2 * b + 1 := by
        have := hn.2
        omega
      have hmul := Nat.mul_le_mul_right (2 ^ f.fracBits) hle
      rw [hpattern, hb]
      have hsplit : (2 * (b + 1) + 1) * 2 ^ f.fracBits =
          (2 * b + 1) * 2 ^ f.fracBits + 2 ^ f.fracBits * 2 := by ring
      omega
    · have hpow : (2 : ℚ) ^ ((n.log2 : ℤ) - f.fracBits) = 2 ^ n.log2 / 2 ^ f.fracBits := by
        rw [zpow_sub₀ two_ne_zero, zpow_natCast, zpow_natCast]
      have hshift : ((n.log2 + f.bias : Nat) : ℤ) - f.bias - f.fracBits =
          (n.log2 : ℤ) - f.fracBits := by
        push_cast
        ring
      have hexact' : (s : ℚ) * 2 ^ n.log2 = n * 2 ^ f.fracBits := by exact_mod_cast hexact
      unfold FloatFormat.absValue
      rw [hs, hexponent, hshift, hpow, mul_div_assoc', hexact', mul_div_cancel_right₀]
      exact pow_ne_zero _ two_ne_zero

/-- An integer with no more significant bits than the format, or the next power of two. -/
theorem holds_mul {m s : Nat} (hm : m ≤ 2 ^ (f.fracBits + 1))
    (hbias : f.fracBits + 1 + s ≤ f.bias) : f.Holds (m * 2 ^ s) := by
  by_cases hzero : m = 0
  · rw [hzero, Nat.zero_mul]
    exact ⟨Nat.dvd_zero _, Nat.zero_le _⟩
  · have hne : m * 2 ^ s ≠ 0 := Nat.mul_ne_zero hzero (Nat.two_pow_pos s).ne'
    rcases Nat.lt_or_eq_of_le hm with hlt | heq
    · have hlog : (m * 2 ^ s).log2 < f.fracBits + 1 + s := by
        rw [Nat.log2_lt hne, Nat.pow_add]
        exact Nat.mul_lt_mul_of_pos_right hlt (Nat.two_pow_pos s)
      refine ⟨Nat.dvd_mul_left_of_dvd (Nat.pow_dvd_pow 2 (by omega)) m, by omega⟩
    · rw [heq, ← Nat.pow_add]
      refine ⟨Nat.pow_dvd_pow 2 ?_, ?_⟩
      · rw [Nat.log2_two_pow]
        omega
      · rw [Nat.log2_two_pow]
        exact hbias

end Values

/-! ## Rounded integers -/

section Rounded

variable {q : ℚ} {z : ℤ}

/-- Rounding does not pass an integer from below. -/
theorem round_le (mode : Mode) (h : q ≤ z) : mode.round q ≤ z := by
  have hfloor : ⌊q⌋ ≤ z := by
    have hle := Int.floor_le q
    exact_mod_cast le_trans hle h
  have hceil : ⌈q⌉ ≤ z := Int.ceil_le.2 h
  have hnext : ¬ q - ⌊q⌋ < 1 / 2 → ⌊q⌋ + 1 ≤ z := by
    intro hhalf
    have hlt : (⌊q⌋ : ℚ) < z := by linarith
    have hlt' : ⌊q⌋ < z := by exact_mod_cast hlt
    omega
  cases mode with
  | down => exact hfloor
  | up => exact hceil
  | zero =>
      simp only [Mode.round]
      split
      · exact hfloor
      · exact hceil
  | nearest =>
      simp only [Mode.round]
      split
      · exact hfloor
      · rename_i hhalf
        split
        · exact hnext hhalf
        · split
          · exact hfloor
          · exact hnext hhalf

/-- Nor from above. -/
theorem le_round (mode : Mode) (h : (z : ℚ) ≤ q) : z ≤ mode.round q := by
  have hfloor : z ≤ ⌊q⌋ := Int.le_floor.2 h
  have hceil : z ≤ ⌈q⌉ := le_trans hfloor (Int.floor_le_ceil q)
  cases mode with
  | down => exact hfloor
  | up => exact hceil
  | zero =>
      simp only [Mode.round]
      split
      · exact hfloor
      · exact hceil
  | nearest =>
      simp only [Mode.round]
      split
      · exact hfloor
      · split
        · omega
        · split
          · exact hfloor
          · omega

/-- An integer is not changed. -/
theorem round_intCast (mode : Mode) (z : ℤ) : mode.round (z : ℚ) = z :=
  le_antisymm (round_le mode le_rfl) (le_round mode le_rfl)

/-- A natural number with some significant bits is a multiple of a power of two. -/
theorem toBits_natCast (mode : Mode) (p n : Nat) :
    ∃ m ≤ 2 ^ p, mode.toBits p (n : ℤ) = (m * 2 ^ (n.size - p) : Nat) := by
  have hpow : (0 : ℚ) < 2 ^ (n.size - p) := pow_pos two_pos _
  have hlt : n < 2 ^ p * 2 ^ (n.size - p) := by
    rw [← Nat.pow_add]
    exact lt_of_lt_of_le (Nat.lt_size_self n) (Nat.pow_le_pow_right two_pos (by omega))
  have hle : mode.round ((n : ℚ) / 2 ^ (n.size - p)) ≤ (2 ^ p : ℤ) := by
    apply round_le
    rw [div_le_iff₀ hpow]
    exact_mod_cast hlt.le
  have hnonneg : 0 ≤ mode.round ((n : ℚ) / 2 ^ (n.size - p)) := by
    apply le_round
    rw [Int.cast_zero]
    positivity
  obtain ⟨m, hm⟩ := Int.eq_ofNat_of_zero_le hnonneg
  rw [hm] at hle
  refine ⟨m, by exact_mod_cast hle, ?_⟩
  unfold Mode.toBits
  rw [Int.natAbs_natCast, Int.cast_natCast, hm]
  push_cast
  rfl

end Rounded

section Patterns

variable {w : Nat} {f : FloatFormat w}

theorem withSign_toNat (sign : Bool) {n : Nat} (hw : 0 < w) (hn : n < 2 ^ (w - 1)) :
    (withSign sign n : BitVec w).toNat = n + if sign then 2 ^ (w - 1) else 0 := by
  have htop : 2 ^ w = 2 ^ (w - 1) + 2 ^ (w - 1) := by
    have hsucc : w = w - 1 + 1 := by omega
    conv_lhs => rw [hsucc, pow_succ]
    omega
  unfold withSign
  rw [BitVec.toNat_ofNat, Nat.mod_eq_of_lt]
  split
  · omega
  · omega

/-- The sign does not change the magnitude. -/
theorem magnitude_withSign (sign : Bool) {n : Nat} (hw : 0 < w) (hn : n < 2 ^ (w - 1)) :
    magnitude (withSign sign n : BitVec w) = n := by
  unfold magnitude
  rw [withSign_toNat sign hw hn]
  split
  · rw [Nat.add_mod_right, Nat.mod_eq_of_lt hn]
  · rw [Nat.add_zero, Nat.mod_eq_of_lt hn]

/-- The sign is the highest bit. -/
theorem msb_withSign (sign : Bool) {n : Nat} (hw : 0 < w) (hn : n < 2 ^ (w - 1)) :
    (withSign sign n : BitVec w).msb = sign := by
  rw [BitVec.msb_eq_decide, withSign_toNat sign hw hn]
  cases sign with
  | false =>
      simp only [Bool.false_eq_true, if_false, Nat.add_zero, decide_eq_false_iff_not]
      omega
  | true =>
      simp only [if_true, decide_eq_true_eq]
      omega

theorem width_pos (f : FloatFormat w) : 0 < w := by
  have := f.fits
  omega

theorem ofInt_natCast (n : Nat) : f.ofInt (n : ℤ) = withSign false (f.ofNat n) := by
  unfold FloatFormat.ofInt withSign
  rw [if_neg (by omega), Int.natAbs_natCast]
  rfl

/-- The pattern of a natural number that the format has. -/
theorem value_ofInt (hbias : 0 < f.bias) {n : Nat} (hn : f.Holds n) :
    f.isFinite (f.ofInt (n : ℤ)) = true ∧ (f.ofInt (n : ℤ)).msb = false ∧
      f.value (f.ofInt (n : ℤ)) = n := by
  obtain ⟨hlt, habs⟩ := ofNat_holds hbias hn
  have htop := lt_trans hlt (infinity_lt f)
  have hmag := magnitude_withSign false (width_pos f) htop
  have hmsb := msb_withSign false (width_pos f) htop
  rw [ofInt_natCast]
  refine ⟨?_, hmsb, ?_⟩
  · unfold FloatFormat.isFinite
    rw [hmag]
    exact decide_eq_true hlt
  · unfold FloatFormat.value
    rw [hmsb, hmag, habs]
    rfl

/-- The pattern of a rounded natural number. -/
theorem value_toBits (mode : Mode) {n k : Nat} (hn : n < 2 ^ k) (hk : k ≤ f.bias)
    (hp : f.fracBits + 1 ≤ f.bias) :
    let y := f.ofInt (mode.toBits (f.fracBits + 1) (n : ℤ))
    f.isFinite y = true ∧ y.msb = false ∧ f.value y = mode.toBits (f.fracBits + 1) (n : ℤ) := by
  obtain ⟨m, hm, hbits⟩ := toBits_natCast mode (f.fracBits + 1) n
  have hsize : n.size ≤ k := Nat.size_le.2 hn
  have hholds := holds_mul f hm (s := n.size - (f.fracBits + 1)) (by omega)
  rw [hbits]
  exact value_ofInt (by omega) hholds

/-- A significand has one bit more than the fraction. -/
theorem significand_lt (f : FloatFormat w) (n : Nat) : f.significand n < 2 ^ (f.fracBits + 1) := by
  have hpos := Nat.two_pow_pos f.fracBits
  have hdiv := Nat.div_add_mod n (2 ^ f.fracBits)
  have hmod := Nat.mod_lt n hpos
  unfold FloatFormat.significand FloatFormat.exponentField
  rw [pow_succ]
  by_cases hzero : n / 2 ^ f.fracBits = 0
  · rw [hzero] at hdiv ⊢
    omega
  · obtain ⟨c, hc⟩ := Nat.exists_eq_succ_of_ne_zero hzero
    have hmax : max (n / 2 ^ f.fracBits) 1 - 1 = c := by omega
    have hsplit : 2 ^ f.fracBits * (c + 1) = c * 2 ^ f.fracBits + 2 ^ f.fracBits := by ring
    rw [hmax]
    rw [hc, Nat.succ_eq_add_one, hsplit] at hdiv
    omega

/-- Between two powers of two, of which the first one is above the fraction, the difference from
the first one has a pattern. -/
theorem exists_difference {x : BitVec w} {k : Nat} (hfrac : f.fracBits ≤ k)
    (hbias : f.fracBits + 1 + k ≤ f.bias) (hlo : 2 ^ k ≤ f.value x)
    (hhi : f.value x < 2 ^ (k + 1)) :
    ∃ c : BitVec w, f.isFinite c = true ∧ f.value c = f.value x - 2 ^ k := by
  have hpos : (0 : ℚ) < 2 ^ k := pow_pos two_pos k
  have habs := absValue_nonneg f (magnitude x)
  have hvalue : f.value x = f.absValue (magnitude x) := by
    unfold FloatFormat.value at hlo ⊢
    split
    · rename_i hsign
      rw [if_pos hsign] at hlo
      linarith
    · rfl
  rw [hvalue] at hlo hhi ⊢
  have hsig := significand_lt f (magnitude x)
  unfold FloatFormat.absValue at hlo hhi ⊢
  generalize f.significand (magnitude x) = s at *
  generalize (f.exponentField (magnitude x) : ℤ) - f.bias - f.fracBits = exp at *
  have hsig' : (s : ℚ) < 2 ^ (f.fracBits + 1) := by exact_mod_cast hsig
  -- the unit is an integer, since the number is above all that have a fraction
  have hexp : 0 ≤ exp := by
    by_contra hneg
    have hunit : (2 : ℚ) ^ exp ≤ 2 ^ (-1 : ℤ) := zpow_le_zpow_right₀ one_le_two (by omega)
    have hle : (2 : ℚ) ^ f.fracBits ≤ 2 ^ k := pow_le_pow_right₀ one_le_two hfrac
    have hunit' : (0 : ℚ) < 2 ^ exp := zpow_pos two_pos exp
    rw [zpow_neg_one] at hunit
    rw [pow_succ] at hsig'
    nlinarith
  obtain ⟨j, rfl⟩ := Int.eq_ofNat_of_zero_le hexp
  rw [zpow_natCast] at hlo hhi ⊢
  have hlo' : 2 ^ k ≤ s * 2 ^ j := by exact_mod_cast hlo
  have hhi' : s * 2 ^ j < 2 ^ (k + 1) := by exact_mod_cast hhi
  have hj : j ≤ k := by
    by_contra hlt
    have hs : s ≠ 0 := by
      rintro rfl
      rw [Nat.zero_mul] at hlo'
      exact absurd (Nat.two_pow_pos k) (by omega)
    have hle : 2 ^ (k + 1) ≤ 2 ^ j := Nat.pow_le_pow_right two_pos (by omega)
    have hmul := Nat.le_mul_of_pos_left (2 ^ j) (Nat.pos_of_ne_zero hs)
    omega
  obtain ⟨i, rfl⟩ : ∃ i, k = i + j := ⟨k - j, by omega⟩
  have hge : 2 ^ i ≤ s := by
    rw [Nat.pow_add] at hlo'
    exact Nat.le_of_mul_le_mul_right hlo' (Nat.two_pow_pos j)
  have hholds := holds_mul f (m := s - 2 ^ i) (s := j) (le_trans (Nat.sub_le _ _) hsig.le)
    (by omega)
  obtain ⟨hfinite, -, hdifference⟩ := value_ofInt (by omega) hholds
  refine ⟨_, hfinite, ?_⟩
  rw [hdifference, Nat.cast_mul, Nat.cast_sub hge]
  push_cast
  rw [pow_add]
  ring

/-! ## Truncation -/

/-- The pattern of the greatest magnitude that is not above that of the number. -/
def FloatFormat.truncate (f : FloatFormat w) (sign : Bool) (q : ℚ) : BitVec w :=
  withSign sign (Nat.findGreatest (fun n => f.absValue n ≤ |q|) (f.infinity - 1))

theorem findGreatest_lt (f : FloatFormat w) (p : Nat → Prop) [DecidablePred p] :
    Nat.findGreatest p (f.infinity - 1) < f.infinity := by
  have hinf : 0 < f.infinity := lt_of_lt_of_le (Nat.two_pow_pos _) (two_pow_le_infinity f)
  have hle : Nat.findGreatest p (f.infinity - 1) ≤ f.infinity - 1 := Nat.findGreatest_le _
  omega

theorem msb_truncate (f : FloatFormat w) (sign : Bool) (q : ℚ) : (f.truncate sign q).msb = sign :=
  msb_withSign sign (width_pos f) (lt_trans (findGreatest_lt f _) (infinity_lt f))

/-- Truncation is one of the correct roundings. -/
theorem truncate_rounds {sign : Bool} {q : ℚ} (hsign : if sign then q ≤ 0 else 0 ≤ q) :
    f.Rounds q (f.truncate sign q) := by
  have hlt := findGreatest_lt f fun n => f.absValue n ≤ |q|
  have habs :
      f.absValue (Nat.findGreatest (fun n => f.absValue n ≤ |q|) (f.infinity - 1)) ≤ |q| := by
    apply Nat.findGreatest_spec (P := fun n => f.absValue n ≤ |q|) (Nat.zero_le _)
    rw [absValue_zero]
    exact abs_nonneg q
  have hmax : ∀ n, n < f.infinity → f.absValue n ≤ |q| →
      n ≤ Nat.findGreatest (fun n => f.absValue n ≤ |q|) (f.infinity - 1) := fun n hn hq =>
    Nat.le_findGreatest (by omega) hq
  unfold FloatFormat.truncate
  generalize Nat.findGreatest (fun n => f.absValue n ≤ |q|) (f.infinity - 1) = t at *
  have htop : t < 2 ^ (w - 1) := lt_trans hlt (infinity_lt f)
  have hmag := magnitude_withSign sign (width_pos f) htop
  have hmsb := msb_withSign sign (width_pos f) htop
  have hvalue : f.value (withSign sign t : BitVec w) =
      if sign then -f.absValue t else f.absValue t := by
    unfold FloatFormat.value
    rw [hmsb, hmag]
  have hkey : key (withSign sign t : BitVec w) = if sign then -(t : ℤ) else t := by
    unfold key
    rw [hmsb, hmag]
  have hfinite : ∀ c : BitVec w, f.isFinite c = true → magnitude c < f.infinity := fun c hc =>
    of_decide_eq_true hc
  refine ⟨?_, fun c hc hcq => ?_, fun c hc hqc => ?_⟩
  · unfold FloatFormat.isNaN
    rw [hmag]
    exact decide_eq_false (by omega)
  · cases sign with
    | false =>
        -- nothing between the truncated value and `q`: the magnitude found is the greatest
        have hq : |q| = q := abs_of_nonneg hsign
        rw [hkey]
        unfold key
        unfold FloatFormat.value at hcq
        cases hc' : c.msb with
        | false =>
            rw [hc'] at hcq
            have := hmax _ (hfinite c hc) (hcq.trans_eq hq.symm)
            simp only [Bool.false_eq_true, if_false]
            omega
        | true =>
            simp only [Bool.false_eq_true, if_false, if_true]
            omega
    | true =>
        have hq : |q| = -q := abs_of_nonpos hsign
        apply (value_le_iff f).1
        rw [hvalue]
        simp only [if_true]
        linarith
  · cases sign with
    | false =>
        have hq : |q| = q := abs_of_nonneg hsign
        apply (value_le_iff f).1
        rw [hvalue]
        simp only [Bool.false_eq_true, if_false]
        linarith
    | true =>
        -- below zero the greatest magnitude is the least value
        have hq : |q| = -q := abs_of_nonpos hsign
        rw [hkey]
        unfold key
        unfold FloatFormat.value at hqc
        cases hc' : c.msb with
        | false =>
            simp only [Bool.false_eq_true, if_false, if_true]
            omega
        | true =>
            rw [hc'] at hqc
            simp only [if_true] at hqc ⊢
            have := hmax _ (hfinite c hc) (by linarith)
            omega

/-- The value of a finite pattern is truncated to that pattern. -/
theorem truncate_value {y : BitVec w} (hy : f.isFinite y = true) :
    f.truncate y.msb (f.value y) = y := by
  have habs := absValue_nonneg f (magnitude y)
  apply eq_of_key _ (msb_truncate f _ _)
  apply FloatFormat.Rounds.exact hy
  apply truncate_rounds
  unfold FloatFormat.value
  split
  · linarith
  · exact habs

/-- The sign of a value that is not zero is that of its pattern. -/
theorem value_neg_iff {y : BitVec w} (hzero : f.value y ≠ 0) : f.value y < 0 ↔ y.msb = true := by
  have habs := absValue_nonneg f (magnitude y)
  unfold FloatFormat.value at hzero ⊢
  cases hsign : y.msb with
  | false =>
      simp only [Bool.false_eq_true, if_false, iff_false]
      linarith
  | true =>
      rw [hsign, if_pos rfl] at hzero
      simp only [if_true, iff_true]
      exact lt_of_le_of_ne (by linarith) hzero

end Patterns

end Ieee
