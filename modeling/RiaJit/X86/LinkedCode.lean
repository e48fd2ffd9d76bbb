import RiaJit.X86.LocalJumps

/-!
# Code whose exits are linked later

A block is left at instructions over which a jump may be written once the code of the next
block exists. The rest of the block is not touched, so code that runs through from its
start to its end does so after such jumps have been written too.
-/

set_option autoImplicit false

namespace RiaJit.X86

open EmitLogic

/-- Where a jump may be written: at an address in `AX` that is to be noted, always, and at
a long conditional jump, under its condition. -/
def FeInstr.stub : FeInstr → Option (Option Cond)
  | .leaRip .ax => some none
  | .jcc true cond _ => some (some cond)
  | _ => none

/-- Every instruction of a sequence has a property that depends on its address. -/
def AllAt (enc : Encoder) (P : BitVec 64 → FeInstr → Prop) : BitVec 64 → List FeInstr → Prop
  | _, [] => True
  | head, i :: is => P head i ∧ AllAt enc P (head + BitVec.ofNat 64 (enc.size i)) is

/-- The memory holds an instruction, or a jump over it that is allowed by `exit`. -/
def LinkedAt (code : CodeAt) (exit : Option Cond → BitVec 64 → Prop) (a : BitVec 64)
    (i : FeInstr) : Prop :=
  code a = some i ∨
    ∃ cond loc, i.stub = some cond ∧ exit cond loc ∧ code a = some (.jump cond true loc)

/-- The memory holds a sequence, up to jumps over its stubs. -/
abbrev HoldsLinked (enc : Encoder) (code : CodeAt) (exit : Option Cond → BitVec 64 → Prop) :
    BitVec 64 → List FeInstr → Prop :=
  AllAt enc (LinkedAt code exit)

section

variable {enc : Encoder} {P Q : BitVec 64 → FeInstr → Prop} {head : BitVec 64}
  {is js : List FeInstr}

theorem allAt_append :
    AllAt enc P head (is ++ js) ↔ AllAt enc P head is ∧ AllAt enc P (enc.after head is) js := by
  induction is generalizing head with
  | nil => simp [AllAt]
  | cons i is ih =>
      show (_ ∧ AllAt enc P _ (is ++ js)) ↔ (_ ∧ _) ∧ _
      rw [ih, Encoder.after_cons, and_assoc]

/-- Code further on has no instruction here, where all of it fits the address space. -/
theorem fetch_before {a : BitVec 64} {k : Nat} (hk : 0 < k) (hlt : k + enc.codeSize is < 2 ^ 64) :
    enc.fetch (a + BitVec.ofNat 64 k) is a = none := by
  induction is generalizing k with
  | nil => rfl
  | cons i is ih =>
      have hsize := enc.size_pos i
      rw [Encoder.codeSize_cons] at hlt
      have hne : a ≠ a + BitVec.ofNat 64 k := by
        intro heq
        have hzero : 0#64 = BitVec.ofNat 64 k :=
          add_left_cancel ((BitVec.add_zero a).trans heq)
        have hnat := congrArg BitVec.toNat hzero
        rw [BitVec.toNat_ofNat, BitVec.toNat_ofNat, Nat.mod_eq_of_lt (by omega)] at hnat
        omega
      show (if a = a + BitVec.ofNat 64 k then _ else _) = none
      rw [if_neg hne, BitVec.add_assoc, ← BitVec.ofNat_add]
      exact ih (by omega) (by omega)

/-- What is fetched from a sequence has the property, so the whole sequence has. -/
theorem allAt_of_fetch (hlt : enc.codeSize is < 2 ^ 64)
    (h : ∀ a i, enc.fetch head is a = some i → P a i) : AllAt enc P head is := by
  induction is generalizing head with
  | nil => trivial
  | cons i is ih =>
      have hsize := enc.size_pos i
      rw [Encoder.codeSize_cons] at hlt
      refine ⟨h head i (if_pos rfl), ih (by omega) fun a j hj => ?_⟩
      refine h a j ?_
      show (if a = head then some i else _) = some j
      by_cases ha : a = head
      · subst ha
        rw [fetch_before hsize hlt] at hj
        cases hj
      · rw [if_neg ha]
        exact hj

theorem allAt_mono (h : AllAt enc P head is) (hPQ : ∀ a, ∀ i ∈ is, P a i → Q a i) :
    AllAt enc Q head is := by
  induction is generalizing head with
  | nil => trivial
  | cons i is ih =>
      exact ⟨hPQ _ i List.mem_cons_self h.1,
        ih h.2 fun a j hj => hPQ a j (List.mem_cons_of_mem _ hj)⟩

variable {code : CodeAt} {exit : Option Cond → BitVec 64 → Prop} {h h' : HostState}

/-- An instruction that continues with the next one is no stub. -/
theorem stub_of_exec {i : FeInstr} (hexec : i.exec h = some h') : i.stub = none := by
  cases i with
  | leaRip dst => cases hexec
  | jcc long cond target => cases hexec
  | _ => rfl

/-- Code that runs through holds no stubs. -/
theorem stub_of_runCode (hrun : runCode FeInstr.exec is h = some h') :
    ∀ i ∈ is, i.stub = none := by
  induction is generalizing h with
  | nil => exact fun _ hi => absurd hi List.not_mem_nil
  | cons i is ih =>
      obtain ⟨h₁, hexec, hrest⟩ := Option.bind_eq_some_iff.1 hrun
      intro j hj
      rcases List.mem_cons.1 hj with rfl | hj
      · exact stub_of_exec hexec
      · exact ih hrest j hj

/-- Code without stubs is held as it is. -/
theorem HoldsLinked.holds (hlinked : HoldsLinked enc code exit head is)
    (hstub : ∀ i ∈ is, i.stub = none) : Holds enc code head is := by
  have hall : AllAt enc (fun a i => code a = some i) head is := by
    refine allAt_mono hlinked fun a i hi h => ?_
    rcases h with h | ⟨cond, loc, hcond, -, -⟩
    · exact h
    · rw [hstub i hi] at hcond
      cases hcond
  clear hlinked hstub
  induction is generalizing head with
  | nil => trivial
  | cons i is ih => exact ⟨hall.1, ih hall.2⟩

/-- Wherever memory holds the code at `a`, it takes `h` at its start to `h'` at its end. -/
def Passes (enc : Encoder) (a : BitVec 64) (is : List FeInstr) (h h' : HostState) : Prop :=
  ∀ code, Holds enc code a is → enc.Reaches code ⟨a, h⟩ ⟨enc.after a is, h'⟩

theorem passes_runCode {a : BitVec 64} (hrun : runCode FeInstr.exec is h = some h') :
    Passes enc a is h h' := fun _ hholds => reaches_runCode hholds hrun

theorem Passes.append {a : BitVec 64} {h₁ : HostState} (his : Passes enc a is h h₁)
    (hjs : Passes enc (enc.after a is) js h₁ h') : Passes enc a (is ++ js) h h' := by
  intro code hholds
  obtain ⟨hheld, hheld'⟩ := holds_append.1 hholds
  rw [Encoder.after_append]
  exact (his code hheld).trans (hjs code hheld')

/-- Instructions that run in sequence run in memory, whatever exits are linked. -/
theorem HoldsLinked.reaches (hlinked : HoldsLinked enc code exit head is)
    (hrun : runCode FeInstr.exec is h = some h') :
    enc.Reaches code ⟨head, h⟩ ⟨enc.after head is, h'⟩ :=
  reaches_runCode (hlinked.holds (stub_of_runCode hrun)) hrun

theorem HoldsLinked.append (hlinked : HoldsLinked enc code exit head (is ++ js)) :
    HoldsLinked enc code exit head is ∧ HoldsLinked enc code exit (enc.after head is) js :=
  allAt_append.1 hlinked

end

end RiaJit.X86
