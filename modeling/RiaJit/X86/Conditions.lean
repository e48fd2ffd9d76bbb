import RiaJit.X86.Machine

/-!
# What conditions test

The conditions on the flags of a comparison, as relations of the compared values.
-/

set_option autoImplicit false

namespace RiaJit.X86

/-- The sign of a difference and its overflow tell the signed order, if `p` is the range. -/
theorem sign_ne_overflow {x y p : Int} (hx : -p ≤ x ∧ x < p) (hy : -p ≤ y ∧ y < p)
    {d : Int} (hd : d = x - y ∨ d = x - y + 2 * p ∨ d = x - y - 2 * p)
    (hrange : -p ≤ d ∧ d < p) :
    (decide (d < 0) != (decide (x < 0) != decide (y < 0) && decide (d < 0) != decide (x < 0))) =
      decide (x < y) := by
  by_cases hxneg : x < 0
  · by_cases hyneg : y < 0
    · simp only [hxneg, hyneg, decide_true, bne_self_eq_false, Bool.false_and, Bool.bne_false]
      exact decide_eq_decide.2 (by omega)
    · by_cases hdneg : d < 0
      · simp [hxneg, hyneg, hdneg]
        omega
      · simp [hxneg, hyneg, hdneg]
        omega
  · by_cases hyneg : y < 0
    · by_cases hdneg : d < 0
      · simp [hxneg, hyneg, hdneg]
        omega
      · simp [hxneg, hyneg, hdneg]
        omega
    · simp only [hxneg, hyneg, decide_false, bne_self_eq_false, Bool.false_and, Bool.bne_false]
      exact decide_eq_decide.2 (by omega)

/-- A sum of two numbers in range wraps once at most. -/
theorem bmod_cases {x p : Int} (hx : -(2 * p) < x ∧ x < 2 * p) {m : Nat} (hm : (m : Int) = 2 * p) :
    Int.bmod x m = x ∨ Int.bmod x m = x + 2 * p ∨ Int.bmod x m = x - 2 * p := by
  have hmod : x % (m : Int) = x ∨ x % (m : Int) = x + 2 * p := by
    rw [hm]
    by_cases hneg : x < 0
    · right
      rw [← Int.add_emod_right]
      exact Int.emod_eq_of_lt (by omega) (by omega)
    · left
      exact Int.emod_eq_of_lt (by omega) (by omega)
  unfold Int.bmod
  dsimp only
  split
  · rcases hmod with h | h
    · exact .inl h
    · exact .inr (.inl h)
  · rcases hmod with h | h
    · exact .inr (.inr (by rw [h, hm]))
    · exact .inl (by rw [h, hm]; omega)

variable {w : Nat}

/-- `L` after a comparison is the signed order. -/
theorem holds_l (a b : BitVec w) : Cond.holds .l (cmpFlags a b) = a.slt b := by
  cases w with
  | zero =>
      obtain rfl : a = b := Subsingleton.elim a b
      rw [show a = 0#0 from Subsingleton.elim a _]
      rfl
  | succ w =>
      show ((a - b).msb != (a.msb != b.msb && (a - b).msb != a.msb)) = _
      have hp : ((2 ^ (w + 1) : Nat) : Int) = 2 * 2 ^ w := by
        push_cast
        rw [Int.pow_succ, Int.mul_comm]
      have ha := @BitVec.toInt_lt _ a
      have ha' := @BitVec.le_toInt _ a
      have hb := @BitVec.toInt_lt _ b
      have hb' := @BitVec.le_toInt _ b
      have hd := @BitVec.toInt_lt _ (a - b)
      have hd' := @BitVec.le_toInt _ (a - b)
      rw [Nat.add_sub_cancel] at ha ha' hb hb' hd hd'
      rw [BitVec.msb_eq_toInt, BitVec.msb_eq_toInt, BitVec.msb_eq_toInt, BitVec.slt_eq_decide]
      refine sign_ne_overflow (p := 2 ^ w) ⟨ha', ha⟩ ⟨hb', hb⟩ ?_ ⟨hd', hd⟩
      rw [BitVec.toInt_sub]
      exact bmod_cases (by omega) hp

/-- `GE` is its negation. -/
theorem holds_ge (a b : BitVec w) : Cond.holds .ge (cmpFlags a b) = !a.slt b := by
  rw [← holds_l]
  show (_ == _) = !(_ != _)
  simp [bne]

/-- `C` after a comparison is the unsigned order. -/
theorem holds_c (a b : BitVec w) : Cond.holds .c (cmpFlags a b) = a.ult b := rfl

/-- `NC` is its negation. -/
theorem holds_nc (a b : BitVec w) : Cond.holds .nc (cmpFlags a b) = !a.ult b := rfl

/-- `Z` after a comparison is equality. -/
theorem holds_z (a b : BitVec w) : Cond.holds .z (cmpFlags a b) = (a == b) := rfl

theorem holds_nz (a b : BitVec w) : Cond.holds .nz (cmpFlags a b) = !(a == b) := rfl

theorem holds_g (a b : BitVec w) : Cond.holds .g (cmpFlags a b) = b.slt a := by
  have hge := holds_ge a b
  change (!(a == b) && Cond.holds .ge (cmpFlags a b)) = _
  rw [hge, BitVec.slt_eq_decide, BitVec.slt_eq_decide]
  by_cases heq : a = b
  · subst heq
    simp
  · have hne : a.toInt ≠ b.toInt := fun h => heq (BitVec.eq_of_toInt_eq h)
    rw [beq_eq_false_iff_ne.2 heq, Bool.not_false, Bool.true_and, ← decide_not]
    exact decide_eq_decide.2 (by omega)

theorem holds_a (a b : BitVec w) : Cond.holds .a (cmpFlags a b) = b.ult a := by
  change (!a.ult b && !(a == b)) = _
  rw [BitVec.ult_eq_decide, BitVec.ult_eq_decide]
  by_cases heq : a = b
  · subst heq
    simp
  · have hne : a.toNat ≠ b.toNat := fun h => heq (BitVec.eq_of_toNat_eq h)
    rw [beq_eq_false_iff_ne.2 heq, Bool.not_false, Bool.and_true, ← decide_not]
    exact decide_eq_decide.2 (by omega)

/-- A test of a value with itself compares it with zero. -/
theorem testFlags_self (a : BitVec w) : testFlags a a = cmpFlags a 0#w := by
  unfold testFlags cmpFlags
  rw [BitVec.and_self, BitVec.sub_zero, bne_self_eq_false, Bool.and_false, BitVec.ult_eq_decide]
  rfl

end RiaJit.X86
