import RiaJit.Lib.EmitLogic
import RiaJit.X86.Machine
import Mathlib.Logic.Relation

/-!
# Code in memory

Emitted instructions at their addresses, and the machine that fetches them. How many
bytes an instruction takes is the encoder's choice; the lengths of jumps are fixed
by the form that is asked for.
-/

set_option autoImplicit false

namespace RiaJit.X86

open EmitLogic

/-- A jump, taken always or under a condition. -/
def FeInstr.jump (cond : Option Cond) (long : Bool) (target : BitVec 64) : FeInstr :=
  match cond with
  | none => .jmp long target
  | some holds => .jcc long holds target

/-- What the encoder is free to choose: the lengths of instructions and the numbers of
the mnemonics of jumps. -/
structure Encoder where
  size : FeInstr → Nat
  size_pos : ∀ i, 0 < size i
  size_le : ∀ i, size i ≤ 15
  size_jmp : ∀ long target, size (.jmp long target) = if long then 5 else 2
  size_jcc : ∀ long cond target, size (.jcc long cond target) = if long then 6 else 2
  size_leaRip : ∀ dst, 5 ≤ size (.leaRip dst)
  size_nop : size .nop = 1
  jumpMnem : Option Cond → BitVec 64
  jumpMnem_injective : Function.Injective jumpMnem
  jumpMnem_fits : ∀ cond, FeInstr.fitsInt32 (jumpMnem cond) = true

/-- A function block or a part of one in memory. -/
abbrev CodeAt := BitVec 64 → Option FeInstr

/-- The state of the processor: the address of the next instruction and the rest. -/
structure Cpu where
  rip : BitVec 64
  host : HostState

namespace Encoder

/-- Ten bytes for everything but jumps and `NOP`. -/
def uniformSize : FeInstr → Nat
  | .jmp long _ => if long then 5 else 2
  | .jcc long _ _ => if long then 6 else 2
  | .nop => 1
  | _ => 10

/-- No instruction has more than fifteen bytes. -/
theorem uniformSize_bounds (i : FeInstr) : 0 < uniformSize i ∧ uniformSize i ≤ 15 := by
  cases i with
  | jmp long _ =>
      cases long with
      | false => exact ⟨Nat.succ_pos 1, Nat.le_add_right 2 13⟩
      | true => exact ⟨Nat.succ_pos 4, Nat.le_add_right 5 10⟩
  | jcc long _ _ =>
      cases long with
      | false => exact ⟨Nat.succ_pos 1, Nat.le_add_right 2 13⟩
      | true => exact ⟨Nat.succ_pos 5, Nat.le_add_right 6 9⟩
  | nop => exact ⟨Nat.succ_pos 0, Nat.le_add_right 1 14⟩
  | _ => exact ⟨Nat.succ_pos 9, Nat.le_add_right 10 5⟩

/-- An encoder with these lengths. -/
def uniform : Encoder where
  size := uniformSize
  size_pos := fun i => (uniformSize_bounds i).1
  size_le := fun i => (uniformSize_bounds i).2
  size_jmp := fun _ _ => rfl
  size_jcc := fun _ _ _ => rfl
  size_leaRip := fun _ => Nat.le_add_right 5 5
  size_nop := rfl
  jumpMnem
    | none => 1#64
    | some .z => 2#64
    | some .nz => 3#64
    | some .l => 4#64
    | some .ge => 5#64
    | some .c => 6#64
    | some .nc => 7#64
    | some .ns => 8#64
    | some .g => 9#64
    | some .a => 10#64
  jumpMnem_injective := by
    rintro (_ | _ | _ | _ | _ | _ | _ | _ | _ | _) (_ | _ | _ | _ | _ | _ | _ | _ | _ | _) <;> simp
  jumpMnem_fits := by rintro (_ | _ | _ | _ | _ | _ | _ | _ | _ | _) <;> decide

variable (enc : Encoder)

/-- The length of a sequence. -/
def codeSize (is : List FeInstr) : Nat := (is.map enc.size).sum

/-- The jump that is encoded at `current`: without `FE_JMPL` a short one where the
displacement fits, else a long one, or none where that does not fit either. -/
def jumpForm (current : BitVec 64) (cond : Option Cond) (jmpl : Bool) (target : BitVec 64) :
    Option FeInstr :=
  let short := FeInstr.jump cond false target
  let long := FeInstr.jump cond true target
  if ¬ jmpl ∧ FeInstr.fitsInt8 (target - (current + BitVec.ofNat 64 (enc.size short))) then
    some short
  else if FeInstr.fitsInt32 (target - (current + BitVec.ofNat 64 (enc.size long))) then
    some long
  else none

/-- The instruction of a sequence placed at `head` that starts at an address. -/
def fetch (head : BitVec 64) : List FeInstr → CodeAt
  | [], _ => none
  | i :: is, a => if a = head then some i else fetch (head + BitVec.ofNat 64 (enc.size i)) is a

/-- The instruction at `rip` of `code` is executed. A return ends the run of a block
and has no next state here. -/
def step (code : CodeAt) (m : Cpu) : Option Cpu :=
  (code m.rip).bind fun i =>
    match i with
    | .jmp _ target => some { m with rip := target }
    | .jcc _ cond target =>
        m.host.flags.map fun flags =>
          if cond.holds flags then { m with rip := target }
          else { m with rip := m.rip + BitVec.ofNat 64 (enc.size i) }
    | .jmpr src => some { m with rip := m.host.reg src }
    | .leaRip dst =>
        some ⟨m.rip + BitVec.ofNat 64 (enc.size i), m.host.setReg dst m.rip⟩
    | i => (i.exec m.host).map fun h => ⟨m.rip + BitVec.ofNat 64 (enc.size i), h⟩

/-- Some steps of `code` lead from one state to the other. -/
abbrev Reaches (code : CodeAt) : Cpu → Cpu → Prop :=
  Relation.ReflTransGen fun m m' => enc.step code m = some m'

@[simp] theorem codeSize_nil : enc.codeSize [] = 0 := rfl

@[simp] theorem codeSize_cons (i : FeInstr) (is : List FeInstr) :
    enc.codeSize (i :: is) = enc.size i + enc.codeSize is := by
  simp [codeSize]

/-- Sizes add up. -/
@[simp] theorem codeSize_append (is js : List FeInstr) :
    enc.codeSize (is ++ js) = enc.codeSize is + enc.codeSize js := by
  simp [codeSize]

/-- Code has fifteen bytes an instruction at most. -/
theorem codeSize_le (is : List FeInstr) : enc.codeSize is ≤ 15 * is.length := by
  induction is with
  | nil => exact Nat.le_refl 0
  | cons i is ih =>
      have hi := enc.size_le i
      rw [codeSize_cons, List.length_cons]
      omega

/-- The address at the end of a sequence placed at `head`. -/
def after (head : BitVec 64) (is : List FeInstr) : BitVec 64 :=
  head + BitVec.ofNat 64 (enc.codeSize is)

@[simp] theorem after_nil (head : BitVec 64) : enc.after head [] = head :=
  BitVec.add_zero head

/-- The address behind code is found piece by piece. -/
theorem after_append (head : BitVec 64) (is js : List FeInstr) :
    enc.after head (is ++ js) = enc.after (enc.after head is) js := by
  simp [after, BitVec.ofNat_add, BitVec.add_assoc]

theorem after_cons (head : BitVec 64) (i : FeInstr) (is : List FeInstr) :
    enc.after head (i :: is) = enc.after (head + BitVec.ofNat 64 (enc.size i)) is := by
  simp [after, BitVec.ofNat_add, BitVec.add_assoc]

/-- The end of a nonempty sequence that fits the address space is not its start. -/
theorem after_ne {head : BitVec 64} {is : List FeInstr} (hpos : 0 < enc.codeSize is)
    (hlt : enc.codeSize is < 2 ^ 64) : enc.after head is ≠ head := by
  intro h
  have hzero : BitVec.ofNat 64 (enc.codeSize is) = 0#64 := by
    have hcancel : head + BitVec.ofNat 64 (enc.codeSize is) = head + 0#64 := by
      rw [BitVec.add_zero]
      exact h
    exact add_left_cancel hcancel
  have hnat := congrArg BitVec.toNat hzero
  rw [BitVec.toNat_ofNat, Nat.mod_eq_of_lt hlt] at hnat
  exact absurd hnat (Nat.ne_of_gt hpos)

/-- Behind the first part of a piece of code its next instruction is fetched. -/
theorem fetch_after (head : BitVec 64) (pre : List FeInstr) (i : FeInstr) (post : List FeInstr)
    (hlt : enc.codeSize pre < 2 ^ 64) :
    enc.fetch head (pre ++ i :: post) (enc.after head pre) = some i := by
  induction pre generalizing head with
  | nil =>
      rw [after_nil]
      exact if_pos rfl
  | cons j pre ih =>
      have hsize := enc.size_pos j
      rw [codeSize_cons] at hlt
      have hne : enc.after head (j :: pre) ≠ head :=
        enc.after_ne (by rw [codeSize_cons]; omega) (by rw [codeSize_cons]; omega)
      show (if enc.after head (j :: pre) = head then some j else _) = some i
      rw [if_neg hne, after_cons]
      exact ih _ (by omega)

end Encoder

/-- `code` holds the sequence at `head`, every instruction at its address. -/
def Holds (enc : Encoder) (code : CodeAt) (head : BitVec 64) : List FeInstr → Prop
  | [] => True
  | i :: is => code head = some i ∧ Holds enc code (head + BitVec.ofNat 64 (enc.size i)) is

section

variable {enc : Encoder} {code : CodeAt}

/-- Code is held piece by piece. -/
theorem holds_append {head : BitVec 64} {is js : List FeInstr} :
    Holds enc code head (is ++ js) ↔
      Holds enc code head is ∧ Holds enc code (enc.after head is) js := by
  induction is generalizing head with
  | nil => simp [Holds]
  | cons i is ih =>
      show (_ ∧ Holds enc code _ (is ++ js)) ↔ (_ ∧ _) ∧ _
      rw [ih, Encoder.after_cons, and_assoc]

/-- A block holds its own instructions. -/
theorem holds_fetch (enc : Encoder) (head : BitVec 64) (pre is post : List FeInstr)
    (hlt : enc.codeSize (pre ++ is) < 2 ^ 64) :
    Holds enc (enc.fetch head (pre ++ is ++ post)) (enc.after head pre) is := by
  induction is generalizing pre with
  | nil => trivial
  | cons i is ih =>
      simp only [Encoder.codeSize_append, Encoder.codeSize_cons] at hlt
      refine ⟨?_, ?_⟩
      · rw [List.append_assoc, List.cons_append]
        exact enc.fetch_after head pre i (is ++ post) (by omega)
      · have hnext := ih (pre ++ [i]) (by simp; omega)
        rw [Encoder.after_append, Encoder.after_cons, Encoder.after_nil] at hnext
        rw [show pre ++ i :: is ++ post = pre ++ [i] ++ is ++ post by simp]
        exact hnext

/-- An instruction that does not jump goes on behind itself. -/
theorem step_exec {m : Cpu} {i : FeInstr} {h : HostState} (hcode : code m.rip = some i)
    (hexec : i.exec m.host = some h) :
    enc.step code m = some ⟨m.rip + BitVec.ofNat 64 (enc.size i), h⟩ := by
  cases i with
  | leaRip | jmp | jcc | jmpr | call | ret => exact absurd hexec (by simp [FeInstr.exec])
  | _ =>
      simp only [Encoder.step, hcode, Option.bind_some, hexec, Option.map_some]

/-- Instructions that run in sequence run in memory. -/
theorem reaches_runCode {head : BitVec 64} {is : List FeInstr} {h h' : HostState}
    (hholds : Holds enc code head is) (hrun : runCode FeInstr.exec is h = some h') :
    enc.Reaches code ⟨head, h⟩ ⟨enc.after head is, h'⟩ := by
  induction is generalizing head h with
  | nil =>
      obtain rfl : h = h' := Option.some.inj hrun
      rw [Encoder.after_nil]
  | cons i is ih =>
      obtain ⟨hcode, hrest⟩ := hholds
      obtain ⟨h₁, hexec, hrun'⟩ := Option.bind_eq_some_iff.1 hrun
      have hstep : enc.step code ⟨head, h⟩ = some ⟨head + BitVec.ofNat 64 (enc.size i), h₁⟩ :=
        step_exec hcode hexec
      rw [Encoder.after_cons]
      exact Relation.ReflTransGen.head hstep (ih hrest hrun')

end

end RiaJit.X86
