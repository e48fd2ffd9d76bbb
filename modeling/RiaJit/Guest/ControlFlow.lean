import RiaJit.Guest.Rv64i
import RiaJit.Parser.Decoded
import Mathlib.Logic.Relation

/-!
# The guest's flow of control

Branches and jumps of RV64I, and the steps of a guest that fetches its instructions. The
instructions of the extensions are a parameter, and so is what a system call does. The
address after an instruction is part of the configuration; there is no slot for it in the
registers.
-/

set_option autoImplicit false

namespace RiaJit

/-- Whether a branch is taken, given the values of `rs1` and `rs2`; none for another
instruction. -/
def RiscInstr.branchTaken (instr : RiscInstr) (a b : BitVec 64) : Option Bool :=
  match instr.mnem with
  | .beq => some (a == b)
  | .bne => some (a != b)
  | .blt => some (a.slt b)
  | .bge => some (!a.slt b)
  | .bltu => some (a.ult b)
  | .bgeu => some (!a.ult b)
  | _ => none

/-- The effects of the instructions without control flow that RV64I does not have. -/
abbrev Extension := RiscInstr → Option (GuestState → GuestState)

/-- The effect of an instruction without control flow, none for an instruction that is not
covered. Fences have no effect on a single hart whose code does not change. -/
def RiscInstr.effect (ext : Extension) (instr : RiscInstr) : Option (GuestState → GuestState) :=
  match instr.mnem with
  | .fence | .fenceI => some id
  | _ => if instr.mnem.format ≠ none then some fun g => g.step instr else ext instr

/-- The target of `JALR`. -/
def jalrAddr (instr : RiscInstr) (g : GuestState) : RiscAddr :=
  g.read instr.regSrc1 + instr.imm &&& ~~~1#64

/-- A state of the guest and the address of its next instruction. -/
structure GuestAt where
  state : GuestState
  addr : RiscAddr

/-- One instruction of the guest, none for `ECALL` and where the guest faults. -/
def RiscInstr.execute (ext : Extension) (instr : RiscInstr) (g : GuestState) : Option GuestAt :=
  match instr.mnem with
  | .jal => some ⟨g.write instr.regDest (instr.addr + 4#64), instr.addr + instr.imm⟩
  | .jalr => some ⟨g.write instr.regDest (instr.addr + 4#64), jalrAddr instr g⟩
  | .ecall | .ebreak | .invalidMnem => none
  | _ =>
      match instr.branchTaken (g.read instr.regSrc1) (g.read instr.regSrc2) with
      | some taken => some ⟨g, if taken then instr.addr + instr.imm else instr.addr + 4#64⟩
      | none => (instr.effect ext).map fun f => ⟨f g, instr.addr + 4#64⟩

/-- A guest program: what is fetched at an address. -/
abbrev Program := RiscAddr → Option RiscInstr

section Steps

variable (program : Program) (ext : Extension)

/-- The guest executes the instruction at its address. -/
def guestStep (c : GuestAt) : Option GuestAt :=
  (program c.addr).bind fun instr => instr.execute ext c.state

/-- The guest has executed some instructions. -/
abbrev GuestRuns : GuestAt → GuestAt → Prop :=
  Relation.ReflTransGen fun c c' => guestStep program ext c = some c'

/-- The guest has executed at least one instruction. -/
abbrev GuestAdvances : GuestAt → GuestAt → Prop :=
  Relation.TransGen fun c c' => guestStep program ext c = some c'

/-- The guest is at an `ECALL`. -/
def AtEcall (c : GuestAt) : Prop := ∃ instr, program c.addr = some instr ∧ instr.mnem = .ecall

/-- Up to the next system calls the guest executes covered instructions only and does not
fault. -/
def GoesRight (c : GuestAt) : Prop :=
  ∀ c', GuestRuns program ext c c' → AtEcall program c' ∨ ∃ c'', guestStep program ext c' = some c''

variable {program ext} {c c' : GuestAt}

theorem GoesRight.runs (h : GoesRight program ext c) (hrun : GuestRuns program ext c c') :
    GoesRight program ext c' :=
  fun c'' hrun' => h c'' (hrun.trans hrun')

/-- Where the guest goes right and does not call the system, it steps. -/
theorem GoesRight.steps (h : GoesRight program ext c) {instr : RiscInstr}
    (hfetch : program c.addr = some instr) (hecall : instr.mnem ≠ .ecall) :
    ∃ c', instr.execute ext c.state = some c' := by
  rcases h c .refl with ⟨i, hi, hmnem⟩ | ⟨c', hstep⟩
  · obtain rfl : instr = i := Option.some.inj (hfetch.symm.trans hi)
    exact absurd hmnem hecall
  · unfold guestStep at hstep
    rw [hfetch] at hstep
    exact ⟨c', hstep⟩

theorem guestStep_of_fetch {instr : RiscInstr} (hfetch : program c.addr = some instr) :
    guestStep program ext c = instr.execute ext c.state := by
  unfold guestStep
  rw [hfetch]
  rfl

end Steps

/-! ## System calls -/

/-- What a system call may do: from the registers and the memory of the guest it leaves a value
for `a0` and a memory, and says whether the guest has ended. -/
abbrev Syscalls := (Nat → BitVec 64) → Memory → BitVec 64 → Memory → Bool → Prop

/-- The registers of the guest as the handler of system calls sees them. -/
def GuestState.args (g : GuestState) (y : Nat) : BitVec 64 := if y < 32 then g.read y else 0#64

/-- `a0`, where system calls leave their result. -/
abbrev a0 : Nat := 10

/-- The state after a system call. -/
def GuestState.afterCall (g : GuestState) (result : BitVec 64) (mem : Memory) : GuestState :=
  { g.write a0 result with mem := mem }

/-- A guest that is running or has ended. -/
structure GuestConfig where
  current : GuestAt
  ended : Bool

/-- One step of the guest: an instruction or a system call. -/
inductive GuestMoves (program : Program) (ext : Extension) (sys : Syscalls) :
    GuestConfig → GuestConfig → Prop
  | instruction {c c' : GuestAt} : guestStep program ext c = some c' →
      GuestMoves program ext sys ⟨c, false⟩ ⟨c', false⟩
  | syscall {g : GuestState} {a : RiscAddr} {result : BitVec 64} {mem : Memory} {ended : Bool} :
      AtEcall program ⟨g, a⟩ → sys g.args g.mem result mem ended →
      GuestMoves program ext sys ⟨⟨g, a⟩, false⟩ ⟨⟨g.afterCall result mem, a + 4#64⟩, ended⟩

/-- The configurations that are reached. -/
abbrev GuestReaches (program : Program) (ext : Extension) (sys : Syscalls) :
    GuestConfig → GuestConfig → Prop :=
  Relation.ReflTransGen (GuestMoves program ext sys)

/-- No run of the guest meets an instruction that faults or is not covered. -/
def WellBehaved (program : Program) (ext : Extension) (sys : Syscalls) (c : GuestConfig) : Prop :=
  ∀ c', GuestReaches program ext sys c c' → c'.ended = false →
    AtEcall program c'.current ∨ ∃ next, guestStep program ext c'.current = some next

section Reaches

variable {program : Program} {ext : Extension} {sys : Syscalls} {c c' : GuestAt}

theorem GuestRuns.reaches (h : GuestRuns program ext c c') :
    GuestReaches program ext sys ⟨c, false⟩ ⟨c', false⟩ := by
  induction h with
  | refl => exact .refl
  | tail _ hstep ih => exact ih.tail (.instruction hstep)

theorem GuestAdvances.moves (h : GuestAdvances program ext c c') :
    Relation.TransGen (GuestMoves program ext sys) ⟨c, false⟩ ⟨c', false⟩ := by
  induction h with
  | single hstep => exact .single (.instruction hstep)
  | tail _ hstep ih => exact ih.tail (.instruction hstep)

theorem WellBehaved.goesRight {start : GuestConfig} (h : WellBehaved program ext sys start)
    (hreach : GuestReaches program ext sys start ⟨c, false⟩) : GoesRight program ext c :=
  fun _ hrun => h _ (hreach.trans hrun.reaches) rfl

end Reaches

end RiaJit
