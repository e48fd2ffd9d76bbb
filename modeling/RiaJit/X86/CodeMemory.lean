import RiaJit.X86.LinkedCode

/-!
# Writes to code memory

Blocks are written next to each other, and later jumps are written over their stubs. A
write destroys the instructions that reach into it, so what is held elsewhere stays where
the instructions lie apart from the write.
-/

set_option autoImplicit false

namespace RiaJit.X86

open EmitLogic

/-- The code memory after `new` has been written to the addresses from `lo` to `hi`. -/
def Encoder.overwrite (enc : Encoder) (lo hi : Nat) (new code : CodeAt) : CodeAt := fun a =>
  if lo ≤ a.toNat ∧ a.toNat < hi then new a
  else (code a).filter fun i => decide (a.toNat + enc.size i ≤ lo ∨ hi ≤ a.toNat)

/-- The code memory after one instruction has been written. -/
def Encoder.write (enc : Encoder) (a : BitVec 64) (i : FeInstr) (code : CodeAt) : CodeAt :=
  enc.overwrite a.toNat (a.toNat + enc.size i) (fun b => if b = a then some i else none) code

section

variable {enc : Encoder} {P Q : BitVec 64 → FeInstr → Prop} {head a : BitVec 64} {i : FeInstr}
  {is pre post : List FeInstr} {code code' new : CodeAt} {lo hi : Nat}
  {exit : Option Cond → BitVec 64 → Prop}

theorem overwrite_inside (hlo : lo ≤ a.toNat) (hhi : a.toNat < hi) :
    enc.overwrite lo hi new code a = new a :=
  if_pos ⟨hlo, hhi⟩

/-- An instruction that lies apart from a write is kept. -/
theorem overwrite_apart (hcode : code a = some i)
    (hapart : a.toNat + enc.size i ≤ lo ∨ hi ≤ a.toNat) :
    enc.overwrite lo hi new code a = some i := by
  have hpos := enc.size_pos i
  have hout : ¬ (lo ≤ a.toNat ∧ a.toNat < hi) := by omega
  unfold Encoder.overwrite
  rw [if_neg hout, hcode, Option.filter_some, if_pos (decide_eq_true hapart)]

/-- The next instruction does not wrap around. -/
theorem toNat_next (hlt : head.toNat + enc.codeSize (i :: is) < 2 ^ 64) :
    (head + BitVec.ofNat 64 (enc.size i)).toNat = head.toNat + enc.size i := by
  rw [Encoder.codeSize_cons] at hlt
  rw [BitVec.toNat_add, BitVec.toNat_ofNat, Nat.add_mod_mod, Nat.mod_eq_of_lt (by omega)]

theorem toNat_after (hlt : head.toNat + enc.codeSize is < 2 ^ 64) :
    (enc.after head is).toNat = head.toNat + enc.codeSize is := by
  unfold Encoder.after
  rw [BitVec.toNat_add, BitVec.toNat_ofNat, Nat.add_mod_mod, Nat.mod_eq_of_lt hlt]

/-- A property of the instructions of a sequence may use that they lie within it. -/
theorem allAt_within (h : AllAt enc P head is)
    (hlt : head.toNat + enc.codeSize is < 2 ^ 64)
    (hPQ : ∀ a i, head.toNat ≤ a.toNat → a.toNat + enc.size i ≤ head.toNat + enc.codeSize is →
      P a i → Q a i) : AllAt enc Q head is := by
  induction is generalizing head with
  | nil => trivial
  | cons i is ih =>
      have hnext := toNat_next hlt
      rw [Encoder.codeSize_cons] at hlt hPQ
      refine ⟨hPQ head i (Nat.le_refl _) (by omega) h.1, ih h.2 (by omega) fun a j hlo hhi => ?_⟩
      exact hPQ a j (by omega) (by omega)

/-- A jump is not longer than the stub that it is written over. -/
theorem size_stub (enc : Encoder) {cond : Option Cond} (loc : BitVec 64)
    (hstub : i.stub = some cond) :
    enc.size (.jump cond true loc) ≤ enc.size i := by
  cases i with
  | leaRip dst =>
      cases dst with
      | ax =>
          obtain rfl : none = cond := Option.some.inj hstub
          have hjmp : enc.size (.jump none true loc) = 5 := enc.size_jmp true loc
          rw [hjmp]
          exact enc.size_leaRip .ax
      | _ => cases hstub
  | jcc long holds target =>
      cases long with
      | true =>
          obtain rfl : some holds = cond := Option.some.inj hstub
          have hjcc : enc.size (.jump (some holds) true loc) = 6 := enc.size_jcc true holds loc
          have hold : enc.size (.jcc true holds target) = 6 := enc.size_jcc true holds target
          rw [hjcc, hold]
      | false => cases hstub
  | _ => cases hstub

/-- What is in memory for an instruction is not longer than it, so it is kept where the
instruction is. -/
theorem LinkedAt.keep (enc : Encoder) (h : LinkedAt code exit a i)
    (hkeep : ∀ j, code a = some j → enc.size j ≤ enc.size i → code' a = some j) :
    LinkedAt code' exit a i := by
  rcases h with h | ⟨cond, loc, hstub, hexit, hjump⟩
  · exact .inl (hkeep i h (Nat.le_refl _))
  · exact .inr ⟨cond, loc, hstub, hexit, hkeep _ hjump (size_stub enc loc hstub)⟩

/-- A sequence apart from a write is kept. -/
theorem HoldsLinked.apart (h : HoldsLinked enc code exit head is)
    (hlt : head.toNat + enc.codeSize is < 2 ^ 64)
    (hapart : head.toNat + enc.codeSize is ≤ lo ∨ hi ≤ head.toNat) :
    HoldsLinked enc (enc.overwrite lo hi new code) exit head is := by
  refine allAt_within h hlt fun a i hlo hhi hlinked => hlinked.keep enc fun j hj hsize => ?_
  exact overwrite_apart hj (by omega)

/-- A sequence that has just been written is held. -/
theorem holdsLinked_fresh (hlt : head.toNat + enc.codeSize is < 2 ^ 64) :
    HoldsLinked enc (enc.overwrite head.toNat (head.toNat + enc.codeSize is)
      (enc.fetch head is) code) exit head is := by
  have hfetch : AllAt enc (fun a i => enc.fetch head is a = some i) head is :=
    allAt_of_fetch (by omega) fun _ _ h => h
  refine allAt_within hfetch hlt fun a i hlo hhi hi => .inl ?_
  have hpos := enc.size_pos i
  exact (overwrite_inside hlo (by omega)).trans hi

/-- A jump that is written over a stub links the exit of its block. -/
theorem HoldsLinked.link {cond : Option Cond} {loc : BitVec 64}
    (h : HoldsLinked enc code exit head (pre ++ i :: post))
    (hlt : head.toNat + enc.codeSize (pre ++ i :: post) < 2 ^ 64) (hstub : i.stub = some cond)
    (hexit : exit cond loc) :
    HoldsLinked enc (enc.write (enc.after head pre) (.jump cond true loc) code) exit head
      (pre ++ i :: post) := by
  obtain ⟨hpre, hi, hpost⟩ := allAt_append.1 h
  have hsize : enc.size (.jump cond true loc) ≤ enc.size i := size_stub enc loc hstub
  rw [Encoder.codeSize_append, Encoder.codeSize_cons] at hlt
  have hat := toNat_after (show head.toNat + enc.codeSize pre < 2 ^ 64 by omega)
  have hnext : (enc.after head pre + BitVec.ofNat 64 (enc.size i)).toNat =
      head.toNat + enc.codeSize pre + enc.size i := by
    have hone : (enc.after head pre).toNat + enc.codeSize [i] < 2 ^ 64 := by
      rw [Encoder.codeSize_cons, Encoder.codeSize_nil, hat]
      omega
    rw [toNat_next hone, hat]
  refine allAt_append.2 ⟨?_, ?_, ?_⟩
  · exact HoldsLinked.apart hpre (by omega) (.inl (by rw [hat]))
  · -- the stub itself
    refine .inr ⟨cond, loc, hstub, hexit, ?_⟩
    have hpos := enc.size_pos (.jump cond true loc)
    refine (overwrite_inside (Nat.le_refl _) (by omega)).trans (if_pos rfl)
  · refine HoldsLinked.apart hpost (by omega) (.inr ?_)
    rw [hnext, hat]
    omega

end

end RiaJit.X86
