import Mathlib.Data.BitVec

/-!
# A stack of words

Words are pushed downwards onto a memory and read back upwards. What a memory is does not
matter: all that is used is that a word which was stored is loaded again, and that storing it
changes no word apart from it. Addresses wrap.
-/

set_option autoImplicit false

namespace WordStack

/-- Words of `size` bytes in a memory. -/
structure WordAccess (M W : Type) (size : Nat) where
  load : M → BitVec 64 → W
  store : M → BitVec 64 → W → M
  load_same : ∀ m a w, load (store m a w) a = w
  load_apart : ∀ m a b w, size ≤ (a - b).toNat → size ≤ (b - a).toNat →
    load (store m a w) b = load m b

/-- A memory with a stack pointer, and the addresses of the words that were pushed, the latest
first. -/
structure Stack (M : Type) where
  mem : M
  pos : BitVec 64
  written : List (BitVec 64)

section Words

variable {M W : Type} {size : Nat} (acc : WordAccess M W size)

/-- `*(--stack) = w`. -/
def Stack.push (s : Stack M) (w : W) : Stack M where
  mem := acc.store s.mem (s.pos - BitVec.ofNat 64 size) w
  pos := s.pos - BitVec.ofNat 64 size
  written := (s.pos - BitVec.ofNat 64 size) :: s.written

/-- Words are pushed one after the other. -/
def Stack.pushAll (s : Stack M) (ws : List W) : Stack M := ws.foldl (Stack.push acc) s

/-- The words at an address and upwards. -/
def Words (m : M) (a : BitVec 64) : List W → Prop
  | [] => True
  | w :: ws => acc.load m a = w ∧ Words m (a + BitVec.ofNat 64 size) ws

variable {acc} {m : M} {s : Stack M}

@[simp] theorem words_nil (a : BitVec 64) : Words acc m a [] := trivial

@[simp] theorem words_cons {a : BitVec 64} {w : W} {ws : List W} :
    Words acc m a (w :: ws) ↔
      acc.load m a = w ∧ Words acc m (a + BitVec.ofNat 64 size) ws := Iff.rfl

theorem Stack.pushAll_append (s : Stack M) (ws vs : List W) :
    s.pushAll acc (ws ++ vs) = (s.pushAll acc ws).pushAll acc vs :=
  List.foldl_append

theorem words_append {a : BitVec 64} {ws vs : List W} :
    Words acc m a (ws ++ vs) ↔
      Words acc m a ws ∧ Words acc m (a + BitVec.ofNat 64 (size * ws.length)) vs := by
  induction ws generalizing a with
  | nil => simp
  | cons w ws ih =>
      have hnext : a + BitVec.ofNat 64 size + BitVec.ofNat 64 (size * ws.length) =
          a + BitVec.ofNat 64 (size * (w :: ws).length) := by
        rw [BitVec.add_assoc, ← BitVec.ofNat_add, List.length_cons, Nat.mul_succ, Nat.add_comm]
      rw [List.cons_append, words_cons, words_cons, ih, hnext, and_assoc]

/-- A word that is stored below others leaves them as they are, unless they wrap around to
it. -/
theorem words_store_below {p : BitVec 64} (w : W) {k : Nat} (hk : 0 < k) {ws : List W}
    (hsize : size * (k + ws.length) ≤ 2 ^ 64)
    (h : Words acc m (p + BitVec.ofNat 64 (size * k)) ws) :
    Words acc (acc.store m p w) (p + BitVec.ofNat 64 (size * k)) ws := by
  induction ws generalizing k with
  | nil => trivial
  | cons v ws ih =>
      obtain ⟨hhead, htail⟩ := h
      rw [List.length_cons] at hsize
      have hnext : p + BitVec.ofNat 64 (size * k) + BitVec.ofNat 64 size =
          p + BitVec.ofNat 64 (size * (k + 1)) := by
        rw [BitVec.add_assoc, ← BitVec.ofNat_add, Nat.mul_succ]
      have hbound : size * k + size ≤ 2 ^ 64 := by
        refine Nat.le_trans ?_ hsize
        rw [← Nat.mul_succ]
        exact Nat.mul_le_mul_left size (by omega)
      have hstep : size ≤ size * k := Nat.le_mul_of_pos_right size hk
      -- the store lies below the word and does not reach it
      constructor
      · rw [acc.load_apart]
        · exact hhead
        · rw [BitVec.toNat_sub, BitVec.toNat_add, BitVec.toNat_ofNat]
          have hp := p.isLt
          omega
        · rw [BitVec.toNat_sub, BitVec.toNat_add, BitVec.toNat_ofNat]
          have hp := p.isLt
          omega
      · rw [hnext] at htail ⊢
        refine ih (Nat.succ_pos k) ?_ htail
        rw [Nat.add_assoc, Nat.add_comm 1]
        exact hsize

theorem words_push {ws : List W} (w : W) (hsize : size * (ws.length + 1) ≤ 2 ^ 64)
    (h : Words acc s.mem s.pos ws) : Words acc (s.push acc w).mem (s.push acc w).pos (w :: ws) := by
  refine ⟨acc.load_same _ _ _, ?_⟩
  have hpos : s.pos = (s.push acc w).pos + BitVec.ofNat 64 (size * 1) := by
    rw [Nat.mul_one]
    exact (BitVec.sub_add_cancel _ _).symm
  rw [hpos] at h
  rw [Nat.add_comm] at hsize
  have hstored := words_store_below w Nat.one_pos hsize h
  rw [Nat.mul_one] at hstored
  exact hstored

/-- What was pushed is read back upwards, the last word first. -/
theorem words_pushAll {ws vs : List W} (hsize : size * (ws.length + vs.length) ≤ 2 ^ 64)
    (h : Words acc s.mem s.pos vs) :
    Words acc (s.pushAll acc ws).mem (s.pushAll acc ws).pos (ws.reverse ++ vs) := by
  induction ws generalizing s vs with
  | nil => exact h
  | cons w ws ih =>
      rw [List.length_cons] at hsize
      have hfirst : size * (vs.length + 1) ≤ 2 ^ 64 :=
        Nat.le_trans (Nat.mul_le_mul_left size (by omega)) hsize
      rw [List.reverse_cons, List.append_assoc]
      refine ih ?_ (words_push w hfirst h)
      rw [List.singleton_append, List.length_cons, Nat.add_comm vs.length, ← Nat.add_assoc]
      exact hsize

/-- A list that is pushed from its end lies at the stack pointer. -/
theorem words_pushAll_reverse (s : Stack M) {ws : List W} (hsize : size * ws.length ≤ 2 ^ 64) :
    Words acc (s.pushAll acc ws.reverse).mem (s.pushAll acc ws.reverse).pos ws := by
  have hall : Words acc (s.pushAll acc ws.reverse).mem (s.pushAll acc ws.reverse).pos
      (ws.reverse.reverse ++ []) := by
    apply words_pushAll
    · rw [List.length_reverse]
      exact hsize
    · trivial
  rw [List.reverse_reverse, List.append_nil] at hall
  exact hall

theorem Stack.pushAll_pos (s : Stack M) (ws : List W) :
    (s.pushAll acc ws).pos = s.pos - BitVec.ofNat 64 (size * ws.length) := by
  induction ws generalizing s with
  | nil => exact (BitVec.sub_zero _).symm
  | cons w ws ih =>
      have hnext : (s.push acc w).pos = s.pos - BitVec.ofNat 64 size := rfl
      show ((s.push acc w).pushAll acc ws).pos = _
      rw [ih, hnext, List.length_cons, Nat.mul_succ, Nat.add_comm, BitVec.ofNat_add,
        BitVec.sub_sub]

/-- All words are written between the last one and where the stack was. -/
theorem Stack.pushAll_written {ws : List W} {a : BitVec 64}
    (hsize : size * ws.length < 2 ^ 64) (ha : a ∈ (s.pushAll acc ws).written) :
    a ∈ s.written ∨
      (a - (s.pushAll acc ws).pos).toNat + size ≤ size * ws.length := by
  induction ws generalizing s with
  | nil => exact .inl ha
  | cons w ws ih =>
      rw [List.length_cons, Nat.mul_succ] at hsize ⊢
      rcases ih (by omega) ha with hbefore | hafter
      · rcases List.mem_cons.1 hbefore with rfl | hbefore
        · refine .inr ?_
          show (_ - ((s.push acc w).pushAll acc ws).pos).toNat + size ≤ _
          rw [Stack.pushAll_pos]
          have hself : s.pos - BitVec.ofNat 64 size -
              ((s.push acc w).pos - BitVec.ofNat 64 (size * ws.length)) =
              BitVec.ofNat 64 (size * ws.length) := by
            show s.pos - _ - (s.pos - _ - _) = _
            bv_omega
          rw [hself, BitVec.toNat_ofNat]
          omega
        · exact .inl hbefore
      · refine .inr (Nat.le_trans hafter ?_)
        omega

end Words

end WordStack
