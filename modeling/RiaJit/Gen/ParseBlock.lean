import RiaJit.Gen.Translate
import RiaJit.Lib.StateExcept
import RiaJit.Parser.Classes

/-!
# What `parse_block` collects

The guest executes instructions from an address on; as long as the successor of each
is known they form a `Trace`. `parse_block` returns the entries of a trace from the
start of the block, without the fences and with its own rewrites, followed by one
entry that ends the block. Whatever the recursive translations do in between does not
matter for the entries.
-/

set_option autoImplicit false

namespace RiaJit.Translate

open StateExcept

/-! ## The guest's straight line -/

/-- The instruction at an address. -/
def fetched (env : Env) (addr : RiscAddr) : Option RiscInstr :=
  match Parser.parseInstruction env.flags env.mem (.ofAddr addr) with
  | .ok (_, instr) => some instr
  | .error _ => none

/-- Where execution continues after an instruction, if the block continues there:
jumps are followed that do not link. -/
def staticNext (flags : Flags) (instr : RiscInstr) : Option RiscAddr :=
  match instr.optype with
  | .invalidInstruction | .branch => none
  | _ =>
      match instr.mnem with
      | .jal =>
          if flags.translateOptJump ∧ instr.regDest = x0 then some (instr.addr + instr.imm)
          else none
      | .jalr | .ecall | .ebreak => none
      | _ => some (instr.addr + 4#64)

/-- The guest executes the instructions one after the other from the first address and
arrives at the second. -/
inductive Trace (env : Env) : RiscAddr → List RiscInstr → RiscAddr → Prop
  | nil (a : RiscAddr) : Trace env a [] a
  | cons {a b c : RiscAddr} {instr : RiscInstr} {instrs : List RiscInstr} :
      fetched env a = some instr → instr.addr = a →
      staticNext env.flags instr = some b → Trace env b instrs c → Trace env a (instr :: instrs) c

/-- `FENCE` and `FENCE.I`. -/
def isFence (instr : RiscInstr) : Bool := instr.mnem = .fence ∨ instr.mnem = .fenceI

/-- The entry of an instruction within a block: a jump that is followed is an `AUIPC`
to `x0`, an access to `fflags`, `frm` or `fcsr` is marked. -/
def rewritten (instr : RiscInstr) : RiscInstr :=
  match instr.mnem with
  | .jal => ⟨instr.addr, .auipc, .immediate, x0, x0, x0, 4#64⟩
  | .csrrw | .csrrs | .csrrc | .csrrwi | .csrrsi | .csrrci => markCsr instr
  | _ => instr

/-- The hint for `translate_JALR`: whether the entry before computed `rs1`. -/
def chainHint (flags : Flags) (before : Option RiscInstr) (instr : RiscInstr) : Nat :=
  match before with
  | none => 0
  | some before =>
      if flags.translateOptJump ∧ before.mnem = .auipc ∧ before.regDest ≠ x0 ∧
          instr.regSrc1 = before.regDest then 1
      else 0

/-- What `parse_block` translates ahead when it meets an instruction. -/
def targetsOf (flags : Flags) (before : Option RiscInstr) (instr : RiscInstr) : List RiscAddr :=
  match instr.mnem with
  | .jal =>
      if ¬ flags.translateOptJump then []
      else if isLink instr.regDest then [instr.addr + instr.imm, instr.addr + 4#64]
      else if instr.regDest ≠ x0 then [instr.addr + instr.imm]
      else []
  | .jalr =>
      (if flags.translateOptRas ∧ isLink instr.regDest then [instr.addr + 4#64] else []) ++
      (if chainHint flags before instr = 1 then
        [instr.addr + 4#64,
          instr.addr - 4#64 + (before.map RiscInstr.imm).getD 0#64 + instr.imm]
      else [])
  | _ => []

/-- The entry of an instruction that ends a block. -/
def rewrittenEnd (flags : Flags) (before : Option RiscInstr) (instr : RiscInstr) : RiscInstr :=
  match instr.mnem with
  | .ebreak => { instr with imm := 0#64, mnem := .invalidMnem, optype := .invalidInstruction }
  | .jalr => { instr with regSrc2 := chainHint flags before instr }
  | _ => instr

/-- The entries of a trace. -/
def entriesOf (trace : List RiscInstr) : List RiscInstr :=
  (trace.filter fun instr => !isFence instr).map rewritten

/-- The entries that end a block: branches, jumps, `ECALL` and invalid instructions. -/
def isTerminator (entry : RiscInstr) : Prop :=
  entry.optype = .branch ∨ entry.optype = .jump ∨ entry.optype = .invalidInstruction ∨
    entry.mnem = .ecall

/-- The last entry of a block that was parsed up to an address: the instruction there,
which ends the block, or the pseudo instruction that continues there. -/
inductive BlockEnd (env : Env) (maxCount : Nat) (front : List RiscInstr) (a : RiscAddr) :
    RiscInstr → Prop
  | terminator {instr : RiscInstr} : fetched env a = some instr → instr.addr = a →
      staticNext env.flags instr = none →
      BlockEnd env maxCount front a (rewrittenEnd env.flags front.getLast? instr)
  | cutOff : front.length + 1 = maxCount → BlockEnd env maxCount front a (pcNextInst a)

section Instructions

variable {env : Env} {flags : Flags} {instr : RiscInstr} {a b c : RiscAddr}

/-- What is fetched has the address it was fetched from, and its class. -/
theorem fetched_sound (h : fetched env a = some instr) : instr.addr = a ∧ instr.Classified := by
  unfold fetched at h
  split at h
  · rename_i n instr' heq
    obtain rfl := Option.some.inj h
    exact Parser.parseInstruction_sound env.flags env.mem a heq
  · exact absurd h nofun

/-- The parser of an instruction reads memory and changes nothing. -/
theorem parseAt_ok {s : TransState} {r : RiscInstr × TransState} (h : parseAt env a s = .ok r) :
    fetched env a = some r.1 ∧ r.2 = s := by
  unfold parseAt at h
  unfold fetched
  split at h
  · exact absurd h nofun
  · rename_i n instr' heq
    obtain rfl := Except.ok.inj h
    rw [heq]
    exact ⟨rfl, rfl⟩

/-- An entry has the address of its instruction. -/
@[simp] theorem rewritten_addr (instr : RiscInstr) : (rewritten instr).addr = instr.addr := by
  unfold rewritten
  split
  · rfl
  all_goals first | rfl | (unfold markCsr; split <;> rfl)

/-- What holds of all instructions with a static successor holds of a whole trace. -/
theorem Trace.forall_mem {p : RiscInstr → Prop} {instrs : List RiscInstr}
    (h : Trace env a instrs b)
    (hp : ∀ instr c, instr.Classified → staticNext env.flags instr = some c → p instr) :
    ∀ instr ∈ instrs, p instr := by
  induction h with
  | nil a => exact fun _ hmem => absurd hmem List.not_mem_nil
  | cons hfetch _ hnext _ ih =>
      intro instr hmem
      rcases List.mem_cons.1 hmem with rfl | hmem
      · exact hp instr _ (fetched_sound hfetch).2 hnext
      · exact ih instr hmem

/-- A trace goes on with the next instruction, if that has a static successor. -/
theorem Trace.snoc {instrs : List RiscInstr} (h : Trace env a instrs b)
    (hfetch : fetched env b = some instr) (hnext : staticNext env.flags instr = some c) :
    Trace env a (instrs ++ [instr]) c := by
  induction h with
  | nil a => exact .cons hfetch (fetched_sound hfetch).1 hnext (.nil c)
  | cons hfetch' haddr hnext' _ ih => exact .cons hfetch' haddr hnext' (ih hfetch)

/-- Fences have no entry. -/
theorem entriesOf_snoc_fence {trace : List RiscInstr} (h : isFence instr = true) :
    entriesOf (trace ++ [instr]) = entriesOf trace := by
  simp [entriesOf, h]

/-- All others have one. -/
theorem entriesOf_snoc {trace : List RiscInstr} (h : isFence instr = false) :
    entriesOf (trace ++ [instr]) = entriesOf trace ++ [rewritten instr] := by
  simp [entriesOf, h]

/-- A mark changes the mnemonic and no optype. -/
theorem markCsr_fields (instr : RiscInstr) :
    (markCsr instr).optype = instr.optype ∧
      ((markCsr instr).mnem = instr.mnem ∨ (markCsr instr).mnem = .manualCsrr) := by
  unfold markCsr
  split
  · exact ⟨rfl, .inr rfl⟩
  · exact ⟨rfl, .inl rfl⟩

theorem rewritten_csr (h : instr.mnem.IsCsr) : rewritten instr = markCsr instr := by
  unfold rewritten
  rcases h with h | h | h | h | h | h <;> rw [h]

/-- The same for the entry of any instruction but a followed jump. -/
theorem rewritten_fields (hjal : instr.mnem ≠ .jal) :
    (rewritten instr).optype = instr.optype ∧
      ((rewritten instr).mnem = instr.mnem ∨ (rewritten instr).mnem = .manualCsrr) := by
  unfold rewritten
  split
  · rename_i h
    exact absurd h hjal
  all_goals first | exact markCsr_fields instr | exact ⟨rfl, .inl rfl⟩

/-- An access that is not marked stays as it is. -/
theorem markCsr_own (instr : RiscInstr) :
    markCsr instr = instr ∨ (markCsr instr).mnem = .manualCsrr := by
  unfold markCsr
  split
  · exact .inr rfl
  · exact .inl rfl

/-- An instruction that is neither followed nor marked is its own entry. -/
theorem rewritten_own (hjal : instr.mnem ≠ .jal) :
    rewritten instr = instr ∨ (rewritten instr).mnem = .manualCsrr := by
  unfold rewritten
  split
  · rename_i h
    exact absurd h hjal
  all_goals first | exact markCsr_own instr | exact .inl rfl

/-- The last instruction is its own entry, unless it is an `EBREAK` or a `JALR`. -/
theorem rewrittenEnd_own (before : Option RiscInstr) (hebreak : instr.mnem ≠ .ebreak)
    (hjalr : instr.mnem ≠ .jalr) : rewrittenEnd flags before instr = instr := by
  unfold rewrittenEnd
  split
  · contradiction
  · contradiction
  · rfl

/-- The last instruction of a block is given the hint, if it is a `JALR`. -/
theorem rewrittenEnd_jalr (before : Option RiscInstr) (h : instr.mnem = .jalr) :
    rewrittenEnd flags before instr = { instr with regSrc2 := chainHint flags before instr } := by
  unfold rewrittenEnd
  rw [h]

/-- What has a static successor is no branch, no invalid instruction and no other jump
than a `JAL`. -/
theorem staticNext_some (h : staticNext flags instr = some b) :
    instr.optype ≠ .invalidInstruction ∧ instr.optype ≠ .branch ∧ instr.mnem ≠ .jalr ∧
      instr.mnem ≠ .ecall ∧ instr.mnem ≠ .ebreak := by
  unfold staticNext at h
  split at h
  · exact absurd h nofun
  · exact absurd h nofun
  · rename_i hvalid hbranch
    refine ⟨hvalid, hbranch, ?_, ?_, ?_⟩ <;>
      · intro hmnem
        rw [hmnem] at h
        exact absurd h nofun

/-- No parsed instruction is the one that ends a block that was cut off. -/
theorem ne_pcNextInst (hclass : instr.Classified) : instr.mnem ≠ .pcNextInst := by
  intro hpseudo
  have hcontrol := hclass.control
  rw [hpseudo] at hcontrol
  cases hoptype : instr.optype with
  | pseudo => exact hclass.notPseudo hoptype
  | _ =>
      rw [hoptype] at hcontrol
      simp [RiscMnem.controlType, RiscOptype.controlType] at hcontrol

/-- Nothing with a static successor is a terminator or the pseudo instruction. -/
theorem not_isTerminator_rewritten (hclass : instr.Classified)
    (hnext : staticNext flags instr = some b) :
    ¬ isTerminator (rewritten instr) ∧ (rewritten instr).mnem ≠ .pcNextInst := by
  obtain ⟨hvalid, hbranch, hjalr, hecall, -⟩ := staticNext_some hnext
  -- a `JAL` that was followed has become an `AUIPC`
  by_cases hjal : instr.mnem = .jal
  · unfold rewritten
    rw [hjal]
    exact ⟨by simp [isTerminator], nofun⟩
  obtain ⟨hoptype, hmnem⟩ := rewritten_fields hjal
  have hjump : instr.optype ≠ .jump := by
    intro hjump
    have hcontrol := hclass.control
    rw [hjump] at hcontrol
    rcases RiscMnem.of_jump hcontrol with h | h
    · exact hjal h
    · exact hjalr h
  unfold isTerminator
  rw [hoptype]
  rcases hmnem with hmnem | hmnem <;> rw [hmnem]
  · refine ⟨?_, ne_pcNextInst hclass⟩
    rintro (h | h | h | h)
    · exact hbranch h
    · exact hjump h
    · exact hvalid h
    · exact hecall h
  · refine ⟨?_, nofun⟩
    rintro (h | h | h | h)
    · exact hbranch h
    · exact hjump h
    · exact hvalid h
    · exact absurd h nofun

/-- What has no static successor ends a block. -/
theorem isTerminator_rewrittenEnd (hclass : instr.Classified)
    (hnext : staticNext flags instr = none) (before : Option RiscInstr) :
    isTerminator (rewrittenEnd flags before instr) := by
  -- only `EBREAK` changes its type, and it becomes an invalid instruction
  have hkeep : ∀ t : RiscOptype, instr.optype = t →
      (rewrittenEnd flags before instr).optype = t ∨
        (rewrittenEnd flags before instr).optype = .invalidInstruction := by
    rintro t rfl
    unfold rewrittenEnd
    split
    · exact .inr rfl
    · exact .inl rfl
    · exact .inl rfl
  have hjump : instr.mnem = .jal ∨ instr.mnem = .jalr → instr.optype = .jump := by
    intro hm
    have hcontrol := hclass.control
    rcases hm with hm | hm <;>
      · rw [hm] at hcontrol
        cases hoptype : instr.optype with
        | jump => rfl
        | _ =>
            rw [hoptype] at hcontrol
            simp [RiscMnem.controlType, RiscOptype.controlType] at hcontrol
  unfold staticNext at hnext
  split at hnext
  · rename_i hoptype
    rcases hkeep _ hoptype with h | h <;> exact .inr (.inr (.inl h))
  · rename_i hoptype
    rcases hkeep _ hoptype with h | h
    · exact .inl h
    · exact .inr (.inr (.inl h))
  split at hnext
  · rename_i hm
    rcases hkeep _ (hjump (.inl hm)) with h | h
    · exact .inr (.inl h)
    · exact .inr (.inr (.inl h))
  · rename_i hm
    rcases hkeep _ (hjump (.inr hm)) with h | h
    · exact .inr (.inl h)
    · exact .inr (.inr (.inl h))
  · rename_i hm
    unfold rewrittenEnd
    rw [hm]
    exact .inr (.inr (.inr hm))
  · rename_i hm
    unfold rewrittenEnd
    rw [hm]
    exact .inr (.inr (.inl rfl))
  · exact absurd hnext nofun

/-- Within a block nothing is a terminator or the pseudo instruction. -/
theorem Trace.entries {trace : List RiscInstr} (h : Trace env a trace b) :
    ∀ entry ∈ entriesOf trace, ¬ isTerminator entry ∧ entry.mnem ≠ .pcNextInst := by
  intro entry hmem
  obtain ⟨instr, hinstr, rfl⟩ := List.mem_map.1 hmem
  exact h.forall_mem (fun _ _ hclass hnext => not_isTerminator_rewritten hclass hnext) instr
    (List.mem_of_mem_filter hinstr)

/-- The last entry of a block is a terminator or the pseudo instruction for the next
address. -/
theorem BlockEnd.last {maxCount : Nat} {front : List RiscInstr} {last : RiscInstr}
    (h : BlockEnd env maxCount front b last) :
    isTerminator last ∨ last.mnem = .pcNextInst ∧ last.imm = b := by
  cases h with
  | terminator hfetch _ hnext =>
      exact .inl (isTerminator_rewrittenEnd (fetched_sound hfetch).2 hnext _)
  | cutOff _ => exact .inr ⟨rfl, rfl⟩

/-- The entries stand in the order of the trace. -/
theorem entriesOf_addr (trace : List RiscInstr) :
    (entriesOf trace).map RiscInstr.addr =
      (trace.filter fun instr => !isFence instr).map RiscInstr.addr := by
  simp [entriesOf]

/-- A jump that is followed leaves no code. -/
theorem translateAUIPC_rewritten (hjal : instr.mnem = .jal) :
    translateAUIPC flags (rewritten instr) = pure () := by
  unfold rewritten
  rw [hjal]
  rfl

end Instructions

/-! ## One iteration of the loop -/

/-- The entry before `parse_pos`. -/
def ParseState.before (s : ParseState) : Option RiscInstr :=
  if s.instructionsInBlock > 0 then some (s.parseBuf (s.parsePos - 1)) else none

/-- What one iteration does with the instruction it has fetched. -/
inductive StepOf (env : Env) (s : ParseState) (instr : RiscInstr) : ParseStep → Prop
  | accept {b : RiscAddr} : staticNext env.flags instr = some b → isFence instr = false →
      StepOf env s instr (.next (s.accept (rewritten instr) b))
  | skip : staticNext env.flags instr = some (s.riscAddr + 4#64) → isFence instr = true →
      StepOf env s instr (.next (s.skip instr))
  | finish : staticNext env.flags instr = none →
      StepOf env s instr (.done (s.finish (rewrittenEnd env.flags s.before instr)))

section Step

variable {env : Env} {tb : RiscAddr → Trans CacheLoc} {s : ParseState} {instr : RiscInstr}
  {t t' : TransState} {step : ParseStep}

/-- An instruction without a static successor ends the block. -/
theorem stepOf_finish {entry : RiscInstr} (hnext : staticNext env.flags instr = none)
    (hentry : rewrittenEnd env.flags s.before instr = entry) :
    StepOf env s instr (.done (s.finish entry)) :=
  hentry ▸ .finish hnext

/-- An instruction with one is added, and parsing goes on there. -/
theorem stepOf_accept {entry : RiscInstr} {b : RiscAddr}
    (hnext : staticNext env.flags instr = some b) (hfence : isFence instr = false)
    (hentry : rewritten instr = entry) : StepOf env s instr (.next (s.accept entry b)) :=
  hentry ▸ .accept hnext hfence

/-- Instructions without control flow continue with the next word. -/
theorem staticNext_next (hvalid : instr.optype ≠ .invalidInstruction)
    (hbranch : instr.optype ≠ .branch) (hjal : instr.mnem ≠ .jal) (hjalr : instr.mnem ≠ .jalr)
    (hecall : instr.mnem ≠ .ecall) (hebreak : instr.mnem ≠ .ebreak) :
    staticNext env.flags instr = some (instr.addr + 4#64) := by
  unfold staticNext
  split
  · contradiction
  · contradiction
  · split <;> first | rfl | contradiction

/-- What the case `SYSTEM` does is a step of the parser's specification. -/
theorem parseSystem_ok (hclass : instr.Classified) (haddr : instr.addr = s.riscAddr)
    (hsystem : instr.optype = .system) (h : parseSystem s instr t = .ok (step, t')) :
    StepOf env s instr step := by
  have hcontrol := hclass.control
  rw [hsystem] at hcontrol
  have hstop : instr.mnem = .ecall ∨ instr.mnem = .ebreak → staticNext env.flags instr = none := by
    unfold staticNext
    rintro (hm | hm) <;> rw [hsystem, hm]
  have hgoOn : instr.mnem ≠ .jal → instr.mnem ≠ .jalr → instr.mnem ≠ .ecall →
      instr.mnem ≠ .ebreak → staticNext env.flags instr = some (s.riscAddr + 4#64) := by
    intro h₁ h₂ h₃ h₄
    rw [← haddr]
    exact staticNext_next (by rw [hsystem]; nofun) (by rw [hsystem]; nofun) h₁ h₂ h₃ h₄
  have hfence : isFence instr = true → instr.mnem ≠ .jal → instr.mnem ≠ .jalr →
      instr.mnem ≠ .ecall → instr.mnem ≠ .ebreak → StepOf env s instr (.next (s.skip instr)) :=
    fun hf h₁ h₂ h₃ h₄ => .skip (hgoOn h₁ h₂ h₃ h₄) hf
  -- `ECALL` and `EBREAK` end the block, fences are skipped, CSR accesses are entries of it
  unfold parseSystem at h
  rcases RiscMnem.of_system hcontrol with hm | hm | hm | hm | hm
  · rw [hm] at h
    obtain ⟨rfl, -⟩ := pure_ok h
    exact stepOf_finish (hstop (.inl hm)) (by unfold rewrittenEnd; rw [hm])
  · rw [hm] at h
    obtain ⟨rfl, -⟩ := pure_ok h
    exact stepOf_finish (hstop (.inr hm)) (by unfold rewrittenEnd; rw [hm])
  · rw [hm] at h
    obtain ⟨rfl, -⟩ := pure_ok h
    apply hfence <;> simp [isFence, hm]
  · rw [hm] at h
    obtain ⟨rfl, -⟩ := pure_ok h
    apply hfence <;> simp [isFence, hm]
  · have hentry := rewritten_csr hm
    rcases hm with hm | hm | hm | hm | hm | hm <;>
      · rw [hm] at h
        obtain ⟨rfl, -⟩ := pure_ok h
        exact stepOf_accept (by apply hgoOn <;> simp [hm]) (by simp [isFence, hm]) hentry

/-- So is what a `JAL` does, followed or not. -/
theorem parseJal_ok (haddr : instr.addr = s.riscAddr) (hjump : instr.optype = .jump)
    (hjal : instr.mnem = .jal) (h : parseJal env tb s instr t = .ok (step, t')) :
    StepOf env s instr step := by
  have hnext : staticNext env.flags instr =
      if env.flags.translateOptJump ∧ instr.regDest = x0 then some (instr.addr + instr.imm)
      else none := by
    unfold staticNext
    rw [hjump, hjal]
  have hfinish : ¬ (env.flags.translateOptJump ∧ instr.regDest = x0) →
      StepOf env s instr (.done (s.finish instr)) := by
    intro hno
    rw [if_neg hno] at hnext
    exact stepOf_finish hnext (by unfold rewrittenEnd; rw [hjal])
  -- only a jump that does not link is followed; the others end the block
  unfold parseJal at h
  split at h
  · rename_i hoff
    obtain ⟨rfl, -⟩ := pure_ok h
    exact hfinish fun hon => hoff hon.1
  rename_i hon
  split at h
  · rename_i hlink
    obtain ⟨-, t₁, -, h⟩ := bind_ok h
    obtain ⟨-, t₂, -, h⟩ := bind_ok h
    obtain ⟨rfl, -⟩ := pure_ok h
    refine hfinish fun hzero => ?_
    rw [hzero.2] at hlink
    exact absurd hlink (by decide)
  split at h
  · rename_i hzero
    obtain ⟨-, t₁, -, h⟩ := bind_ok h
    obtain ⟨rfl, -⟩ := pure_ok h
    exact hfinish fun hyes => hzero hyes.2
  rename_i hzero
  obtain ⟨rfl, -⟩ := pure_ok h
  have hzero : instr.regDest = x0 := not_not.1 hzero
  rw [if_pos ⟨not_not.1 hon, hzero⟩, haddr] at hnext
  exact stepOf_accept hnext (by simp [isFence, hjal])
    (by unfold rewritten followedJump; rw [hjal, haddr, hzero])

/-- So is the end of a `JALR`. -/
theorem parseJalrEnd_ok (hjump : instr.optype = .jump) (hjalr : instr.mnem = .jalr)
    (h : parseJalrEnd env tb s instr t = .ok (step, t')) : StepOf env s instr step := by
  have hnext : staticNext env.flags instr = none := by
    unfold staticNext
    rw [hjump, hjalr]
  have hend : rewrittenEnd env.flags s.before instr =
      { instr with regSrc2 := if isAuipcJalr env s instr then 1 else 0 } := by
    unfold rewrittenEnd chainHint ParseState.before isAuipcJalr
    rw [hjalr]
    by_cases hpos : s.instructionsInBlock > 0 <;> simp [hpos]
  unfold parseJalrEnd at h
  split at h
  · rename_i hmark
    obtain ⟨-, t₁, -, h⟩ := bind_ok h
    obtain ⟨-, t₂, -, h⟩ := bind_ok h
    obtain ⟨rfl, -⟩ := pure_ok h
    exact stepOf_finish hnext (by rw [hend, if_pos hmark])
  · rename_i hmark
    obtain ⟨rfl, -⟩ := pure_ok h
    exact stepOf_finish hnext (by rw [hend, if_neg hmark])

/-- So is a `JALR`, whatever is translated ahead for it. -/
theorem parseJalr_ok (hjump : instr.optype = .jump) (hjalr : instr.mnem = .jalr)
    (h : parseJalr env tb s instr t = .ok (step, t')) : StepOf env s instr step := by
  unfold parseJalr at h
  split at h
  · obtain ⟨-, t₁, -, h⟩ := bind_ok h
    exact parseJalrEnd_ok hjump hjalr h
  · exact parseJalrEnd_ok hjump hjalr h

/-- The entry of an instruction without control flow and system access is its own. -/
theorem stepOf_plain (hclass : instr.Classified) (haddr : instr.addr = s.riscAddr)
    (hplain : instr.optype.controlType = none) (hvalid : instr.optype ≠ .invalidInstruction) :
    StepOf env s instr (.next (s.accept instr (s.riscAddr + 4#64))) := by
  have hcontrol := hclass.control.trans hplain
  have hnot : ∀ m : RiscMnem, m.controlType ≠ none → instr.mnem ≠ m := by
    intro m hm heq
    rw [heq] at hcontrol
    exact hm hcontrol
  have hbranch : instr.optype ≠ .branch := by
    intro hb
    rw [hb] at hplain
    exact absurd hplain nofun
  rw [← haddr]
  refine stepOf_accept (staticNext_next hvalid hbranch (hnot _ nofun) (hnot _ nofun)
    (hnot _ nofun) (hnot _ nofun)) ?_ ?_
  · have h₁ := hnot .fence nofun
    have h₂ := hnot .fenceI nofun
    simp [isFence, h₁, h₂]
  · unfold rewritten
    split
    all_goals first | rfl | (rename_i hm; exact absurd hm (hnot _ nofun))

/-- So is whatever the `switch` does. -/
theorem parseSwitch_ok (hclass : instr.Classified) (haddr : instr.addr = s.riscAddr)
    (h : parseSwitch env tb s instr t = .ok (step, t')) : StepOf env s instr step := by
  have hcontrol := hclass.control
  unfold parseSwitch at h
  -- the switch over the type; a jump is told by its mnemonic
  cases hoptype : instr.optype with
  | system =>
      rw [hoptype] at h
      exact parseSystem_ok hclass haddr hoptype h
  | jump =>
      rw [hoptype] at h hcontrol
      rcases RiscMnem.of_jump hcontrol with hm | hm
      · rw [hm] at h
        exact parseJal_ok haddr hoptype hm h
      · rw [hm] at h
        exact parseJalr_ok hoptype hm h
  | branch =>
      rw [hoptype] at h hcontrol
      obtain ⟨rfl, -⟩ := pure_ok h
      refine stepOf_finish (by unfold staticNext; rw [hoptype]) ?_
      unfold rewrittenEnd
      split
      all_goals first | rfl | (rename_i hm; rw [hm] at hcontrol; exact absurd hcontrol nofun)
  | invalidInstruction =>
      rw [hoptype] at h
      obtain ⟨rfl, -⟩ := pure_ok h
      refine stepOf_finish (by unfold staticNext; rw [hoptype]) ?_
      unfold rewrittenEnd
      rw [hclass.invalid hoptype]
  | pseudo => exact absurd hoptype hclass.notPseudo
  | _ =>
      rw [hoptype] at h
      obtain ⟨rfl, -⟩ := pure_ok h
      exact stepOf_plain hclass haddr (by rw [hoptype]; rfl) (by rw [hoptype]; nofun)

/-- One iteration fetches an instruction and takes the step for it. -/
theorem parseStep_ok (h : parseStep env tb s t = .ok (step, t')) :
    ∃ instr, fetched env s.riscAddr = some instr ∧ StepOf env s instr step := by
  obtain ⟨instr, t₁, hfetch, hswitch⟩ := bind_ok h
  obtain ⟨hfetched, -⟩ := parseAt_ok hfetch
  obtain ⟨haddr, hclass⟩ := fetched_sound hfetched
  exact ⟨instr, hfetched, parseSwitch_ok hclass haddr hswitch⟩

end Step

/-! ## The translator's state -/

section State

variable {env : Env} {tb : RiscAddr → Trans CacheLoc} {I : TransState → Prop} {E : Stop → Prop}

theorem parseAt_spec (habort : ∀ reason, E (.abort reason)) (a : RiscAddr) :
    Spec I (parseAt env a) (fun _ => I) E := by
  intro t hI
  unfold parseAt
  split
  · refine ⟨fun _ _ h => absurd h nofun, fun e h => ?_⟩
    obtain rfl := Except.error.inj h
    exact habort _
  · refine ⟨fun _ t' h => ?_, fun _ h => absurd h nofun⟩
    obtain ⟨-, rfl⟩ := Prod.mk.inj (Except.ok.inj h)
    exact hI

theorem parseSystem_spec (s : ParseState) {instr : RiscInstr} (hclass : instr.Classified)
    (hsystem : instr.optype = .system) : Spec I (parseSystem s instr) (fun _ => I) E := by
  have hcontrol := hclass.control
  rw [hsystem] at hcontrol
  have hret : ∀ step, Spec I (pure step : Trans ParseStep) (fun _ => I) E :=
    fun _ => Spec.ret fun _ h => h
  unfold parseSystem
  rcases RiscMnem.of_system hcontrol with hm | hm | hm | hm | hm
  · rw [hm]
    exact hret _
  · rw [hm]
    exact hret _
  · rw [hm]
    exact hret _
  · rw [hm]
    exact hret _
  · rcases hm with hm | hm | hm | hm | hm | hm <;>
      · rw [hm]
        exact hret _

/-- The hint for `translate_JALR` is set where the condition of `parse_block` holds. -/
theorem chainHint_of_isAuipcJalr {s : ParseState} {instr : RiscInstr}
    (h : isAuipcJalr env s instr) :
    chainHint env.flags s.before instr = 1 ∧
      (s.before.map RiscInstr.imm).getD 0#64 = (s.parseBuf (s.parsePos - 1)).imm := by
  obtain ⟨hflag, hpos, hrest⟩ := h
  unfold chainHint ParseState.before
  rw [if_pos hpos]
  exact ⟨if_pos ⟨hflag, hrest⟩, rfl⟩

section Targets

variable {s : ParseState} {instr : RiscInstr} (haddr : instr.addr = s.riscAddr)
  (htarget : ∀ target ∈ targetsOf env.flags s.before instr,
    Spec I (translateTarget tb target) (fun _ => I) E)

include haddr htarget

/-- Translating the targets of a `JAL` ahead keeps what the translator keeps. -/
theorem parseJal_spec (hmnem : instr.mnem = .jal) :
    Spec I (parseJal env tb s instr) (fun _ => I) E := by
  unfold targetsOf at htarget
  rw [hmnem] at htarget
  dsimp only at htarget
  rw [haddr] at htarget
  unfold parseJal
  refine Spec.ite (fun _ => Spec.ret fun _ h => h) fun hjump => ?_
  rw [if_neg hjump] at htarget
  refine Spec.ite (fun hlink => ?_) fun hlink => Spec.ite (fun hzero => ?_) fun _ =>
    Spec.ret fun _ h => h
  · rw [if_pos hlink] at htarget
    refine (htarget _ (List.mem_cons_self ..)).bind fun _ => ?_
    refine (htarget _ (List.mem_cons_of_mem _ (List.mem_cons_self ..))).bind fun _ => ?_
    exact Spec.ret fun _ h => h
  · rw [if_neg hlink, if_pos hzero] at htarget
    exact (htarget _ (List.mem_cons_self ..)).bind fun _ => Spec.ret fun _ h => h

theorem parseJalrEnd_spec (hmnem : instr.mnem = .jalr) :
    Spec I (parseJalrEnd env tb s instr) (fun _ => I) E := by
  unfold targetsOf at htarget
  rw [hmnem] at htarget
  unfold parseJalrEnd
  refine Spec.ite (fun hmark => ?_) fun _ => Spec.ret fun _ h => h
  obtain ⟨hhint, himm⟩ := chainHint_of_isAuipcJalr hmark
  rw [if_pos hhint, himm, haddr] at htarget
  have hmem : ∀ target ∈ [s.riscAddr + 4#64,
      s.riscAddr - 4#64 + (s.parseBuf (s.parsePos - 1)).imm + instr.imm],
      Spec I (translateTarget tb target) (fun _ => I) E :=
    fun target h => htarget target (List.mem_append_right _ h)
  refine (hmem _ (List.mem_cons_self ..)).bind fun _ => ?_
  refine (hmem _ (List.mem_cons_of_mem _ (List.mem_cons_self ..))).bind fun _ => ?_
  exact Spec.ret fun _ h => h

/-- The same for the targets of a `JALR`. -/
theorem parseJalr_spec (hmnem : instr.mnem = .jalr) :
    Spec I (parseJalr env tb s instr) (fun _ => I) E := by
  have hend := parseJalrEnd_spec haddr htarget hmnem
  unfold targetsOf at htarget
  rw [hmnem] at htarget
  unfold parseJalr
  refine Spec.ite (fun hlink => ?_) fun _ => hend
  rw [if_pos hlink, haddr] at htarget
  exact (htarget _ (List.mem_append_left _ (List.mem_cons_self ..))).bind fun _ => hend

end Targets

/-- What the recursive translations keep, an iteration keeps. -/
theorem parseStep_spec (s : ParseState)
    (hfetch : Spec I (parseAt env s.riscAddr) (fun _ => I) E)
    (htarget : ∀ instr, fetched env s.riscAddr = some instr →
      ∀ target ∈ targetsOf env.flags s.before instr,
        Spec I (translateTarget tb target) (fun _ => I) E) :
    Spec I (parseStep env tb s) (fun _ => I) E := by
  have hfetch' : Spec I (parseAt env s.riscAddr)
      (fun instr t => I t ∧ fetched env s.riscAddr = some instr) E := fun t ht =>
    ⟨fun instr t' h => ⟨(hfetch t ht).1 instr t' h, (parseAt_ok h).1⟩, (hfetch t ht).2⟩
  refine hfetch'.bind fun instr => Spec.of_fact fun hfetched => ?_
  obtain ⟨haddr, hclass⟩ := fetched_sound hfetched
  have hcontrol := hclass.control
  unfold parseSwitch
  cases hoptype : instr.optype with
  | system => exact parseSystem_spec s hclass hoptype
  | jump =>
      rw [hoptype] at hcontrol
      rcases RiscMnem.of_jump hcontrol with hm | hm
      · rw [hm]
        exact parseJal_spec haddr (htarget instr hfetched) hm
      · rw [hm]
        exact parseJalr_spec haddr (htarget instr hfetched) hm
  | _ => exact Spec.ret fun _ h => h

/-- The result of an iteration is one that its instruction leads to. -/
theorem parseStep_stepOf {s : ParseState}
    (h : Spec I (parseStep env tb s) (fun _ => I) E) :
    Spec I (parseStep env tb s)
      (fun step t => I t ∧ ∃ instr, fetched env s.riscAddr = some instr ∧ StepOf env s instr step)
      E :=
  fun t ht => ⟨fun step t' hrun => ⟨(h t ht).1 step t' hrun, parseStep_ok hrun⟩, (h t ht).2⟩

end State

/-! ## The loop -/

namespace ParseState

/-- `instructions_in_block` and `parse_pos` agree. -/
def Counted (s : ParseState) : Prop := s.instructionsInBlock = s.parsePos

section

variable {s : ParseState} (h : s.Counted) (instr : RiscInstr)

/-- A write behind the used part of the buffer leaves that alone. -/
theorem map_range_update (buf : Nat → RiscInstr) (n : Nat) (instr : RiscInstr) :
    (List.range n).map (Function.update buf n instr) = (List.range n).map buf := by
  apply List.map_congr_left
  intro i hi
  exact Function.update_of_ne (Nat.ne_of_lt (List.mem_range.1 hi)) instr buf

/-- The counter counts the entries. -/
theorem length_entries (s : ParseState) : s.entries.length = s.instructionsInBlock := by
  simp [entries]

include h

/-- The last entry is added behind the others. -/
theorem entries_finish : (s.finish instr).entries = s.entries ++ [instr] := by
  show (List.range (s.instructionsInBlock + 1)).map (Function.update s.parseBuf s.parsePos instr) =
    _
  rw [List.range_succ, List.map_append, h, map_range_update, entries, h]
  simp

/-- So is the entry of an accepted instruction. -/
theorem entries_accept (b : RiscAddr) : (s.accept instr b).entries = s.entries ++ [instr] :=
  entries_finish h instr

theorem entries_skip : (s.skip instr).entries = s.entries := by
  show (List.range s.instructionsInBlock).map (Function.update s.parseBuf s.parsePos instr) = _
  rw [h, map_range_update, entries, h]

/-- The entry before is the last one in the buffer. -/
theorem before_eq : s.before = s.entries.getLast? := by
  unfold before entries
  rw [h]
  cases hpos : s.parsePos with
  | zero => simp
  | succ n => simp [List.range_succ]

end

end ParseState

/-- What holds at the head of the loop of `parse_block` that has started at `a`. -/
structure LoopInv (env : Env) (maxCount : Nat) (a : RiscAddr) (s : ParseState) : Prop where
  counted : s.Counted
  room : s.parsePos + 1 ≤ maxCount
  trace : ∃ trace, Trace env a trace s.riscAddr ∧ s.entries = entriesOf trace

/-- What `parse_block` returns for a block that starts at `a`. -/
def IsBlock (env : Env) (maxCount : Nat) (a : RiscAddr) (entries : List RiscInstr) : Prop :=
  ∃ trace b last, Trace env a trace b ∧ entries = entriesOf trace ++ [last] ∧
    BlockEnd env maxCount (entriesOf trace) b last ∧ entries.length ≤ maxCount

/-- A block whose last instruction was read only where the buffer had room for two entries. -/
def ReadBlock (env : Env) (maxCount : Nat) (a : RiscAddr) (entries : List RiscInstr) : Prop :=
  ∃ trace b last, Trace env a trace b ∧ entries = entriesOf trace ++ [last] ∧
    BlockEnd env maxCount (entriesOf trace) b last ∧ entries.length ≤ maxCount ∧
    (last = pcNextInst b ∨ (entriesOf trace).length + 2 ≤ maxCount)

/-- What the loop reads is a block. -/
theorem ReadBlock.isBlock {env : Env} {maxCount : Nat} {a : RiscAddr} {entries : List RiscInstr}
    (h : ReadBlock env maxCount a entries) : IsBlock env maxCount a entries := by
  obtain ⟨trace, b, last, htrace, hentries, hend, hlen, -⟩ := h
  exact ⟨trace, b, last, htrace, hentries, hend, hlen⟩

section Loop

variable {env : Env} {tb : RiscAddr → Trans CacheLoc} {maxCount fuel : Nat} {a : RiscAddr}
  {s s' : ParseState} {t t' : TransState}

/-- Before the first iteration nothing is read. -/
theorem loopInv_init (hmax : 2 ≤ maxCount) : LoopInv env maxCount a (.init a) :=
  ⟨rfl, by show 0 + 1 ≤ maxCount; omega, [], .nil a, rfl⟩

/-- The length of what has been parsed. -/
theorem LoopInv.length (hinv : LoopInv env maxCount a s) : s.entries.length = s.parsePos :=
  (ParseState.length_entries s).trans hinv.counted

/-- A step that goes on keeps the invariant. -/
theorem LoopInv.next (hinv : LoopInv env maxCount a s) (hroom : s.parsePos + 2 ≤ maxCount)
    {instr : RiscInstr} (hfetch : fetched env s.riscAddr = some instr)
    (hstep : StepOf env s instr (.next s')) : LoopInv env maxCount a s' := by
  obtain ⟨trace, htrace, hentries⟩ := hinv.trace
  cases hstep with
  | accept hnext hfence =>
      refine ⟨?_, by show s.parsePos + 1 + 1 ≤ maxCount; omega, trace ++ [instr],
        htrace.snoc hfetch hnext, ?_⟩
      · exact congrArg (· + 1) hinv.counted
      · rw [ParseState.entries_accept hinv.counted, entriesOf_snoc hfence, hentries]
  | skip hnext hfence =>
      refine ⟨hinv.counted, hinv.room, trace ++ [instr], htrace.snoc hfetch hnext, ?_⟩
      rw [ParseState.entries_skip hinv.counted, entriesOf_snoc_fence hfence, hentries]

/-- A step that ends the block leaves it complete. -/
theorem LoopInv.done (hinv : LoopInv env maxCount a s) (hroom : s.parsePos + 2 ≤ maxCount)
    {instr : RiscInstr} (hfetch : fetched env s.riscAddr = some instr)
    (hstep : StepOf env s instr (.done s')) : ReadBlock env maxCount a s'.entries := by
  obtain ⟨trace, htrace, hentries⟩ := hinv.trace
  cases hstep with
  | finish hnext =>
      refine ⟨trace, s.riscAddr, rewrittenEnd env.flags s.before instr, htrace, ?_, ?_, ?_,
        .inr ?_⟩
      · rw [ParseState.entries_finish hinv.counted, hentries]
      · rw [ParseState.before_eq hinv.counted, hentries]
        exact .terminator hfetch (fetched_sound hfetch).1 hnext
      · rw [ParseState.entries_finish hinv.counted, List.length_append, hinv.length]
        show s.parsePos + 1 ≤ maxCount
        omega
      · rw [← hentries, hinv.length]
        exact hroom

/-- The loop has ended at the size of the buffer. -/
theorem LoopInv.cutOff (hinv : LoopInv env maxCount a s) (hroom : ¬ s.parsePos + 2 ≤ maxCount) :
    ReadBlock env maxCount a (cutOff maxCount s).entries := by
  obtain ⟨trace, htrace, hentries⟩ := hinv.trace
  have hpos : maxCount - 1 = s.parsePos := by
    have := hinv.room
    omega
  have hcut : (Translate.cutOff maxCount s).entries =
      (s.finish (pcNextInst s.riscAddr)).entries := by
    unfold Translate.cutOff
    rw [hpos]
    rfl
  have hlen := hinv.length
  have hroom' := hinv.room
  refine ⟨trace, s.riscAddr, pcNextInst s.riscAddr, htrace, ?_, ?_, ?_, .inl rfl⟩
  · rw [hcut, ParseState.entries_finish hinv.counted, hentries]
  · refine .cutOff ?_
    rw [← hentries, hlen]
    omega
  · rw [hcut, ParseState.entries_finish hinv.counted, List.length_append, hlen]
    exact hroom'

/-- The loop reads a block from the address it starts at, by induction on the fuel. -/
theorem parseLoop_ok (hinv : LoopInv env maxCount a s)
    (h : parseLoop env tb maxCount fuel s t = .ok (s', t')) :
    ReadBlock env maxCount a s'.entries := by
  induction fuel generalizing s t with
  | zero => exact absurd h nofun
  | succ fuel ih =>
      unfold parseLoop at h
      split at h
      · rename_i hroom
        obtain ⟨step, t₁, hstep, hrest⟩ := bind_ok h
        obtain ⟨instr, hfetch, hof⟩ := parseStep_ok hstep
        cases step with
        | next s₁ => exact ih (hinv.next hroom hfetch hof) hrest
        | done s₁ =>
            obtain ⟨rfl, -⟩ := pure_ok hrest
            exact hinv.done hroom hfetch hof
      · rename_i hroom
        obtain ⟨rfl, -⟩ := pure_ok h
        exact hinv.cutOff hroom

/-- What `parse_block` returns is a block. -/
theorem parseBlock_ok (hmax : 2 ≤ maxCount) {entries : List RiscInstr}
    (h : parseBlock env tb maxCount fuel a t = .ok (entries, t')) :
    IsBlock env maxCount a entries := by
  obtain ⟨s', t₁, hloop, hret⟩ := bind_ok h
  obtain ⟨rfl, -⟩ := pure_ok hret
  exact (parseLoop_ok (loopInv_init hmax) hloop).isBlock

/-- The entries that `parse_block` returns are those of the straight line from the
start of the block, each with the address of its instruction, and one entry that ends
the block: exactly the last one is a terminator or the pseudo instruction that
continues at the next address. -/
theorem parseBlock_straightLine (env : Env) (translateBlock : RiscAddr → Trans CacheLoc)
    (maxCount fuel : Nat) (hmax : 2 ≤ maxCount) (a : RiscAddr) (t t' : TransState)
    (entries : List RiscInstr)
    (h : parseBlock env translateBlock maxCount fuel a t = .ok (entries, t')) :
    entries.length ≤ maxCount ∧
      ∃ trace b last, Trace env a trace b ∧ entries = entriesOf trace ++ [last] ∧
        BlockEnd env maxCount (entriesOf trace) b last ∧
        (entriesOf trace).map RiscInstr.addr =
          (trace.filter fun instr => !isFence instr).map RiscInstr.addr ∧
        (∀ instr ∈ trace, instr.mnem = .jal →
          translateAUIPC env.flags (rewritten instr) = pure ()) ∧
        (∀ entry ∈ entriesOf trace, ¬ isTerminator entry ∧ entry.mnem ≠ .pcNextInst) ∧
        (isTerminator last ∨ last.mnem = .pcNextInst ∧ last.imm = b) := by
  obtain ⟨trace, b, last, htrace, hentries, hend, hlen⟩ := parseBlock_ok hmax h
  exact ⟨hlen, trace, b, last, htrace, hentries, hend, entriesOf_addr trace,
    fun _ _ hjal => translateAUIPC_rewritten hjal, htrace.entries, hend.last⟩

/-- An addition, a fence, a jump over a word and a system call. -/
def shortProgram : List (BitVec 32) :=
  [0x00100093#32, 0x0ff0000f#32, 0x0080006f#32, 0x00000000#32, 0x00000073#32]

/-- The entries of its block: the fence is skipped and the jump followed. -/
def shortEntries : List RiscInstr :=
  [⟨0#64, .addi, .immediate, 0, 33, 1, 1#64⟩, followedJump 8#64 0,
    ⟨16#64, .ecall, .system, 0, 33, 0, 0#64⟩]

theorem parseBlock_straightLine_shortProgram :
    ∃ trace b last,
      Trace (Env.plain {} (CodeMem.ofWords 0#64 shortProgram)) 0#64 trace b ∧
        shortEntries = entriesOf trace ++ [last] ∧ isTerminator last := by
  have hrun : parseBlock (Env.plain {} (CodeMem.ofWords 0#64 shortProgram)) (fun _ => pure 0#64)
      64 5 0#64 (.initial 0#64) = .ok (shortEntries, .initial 0#64) := rfl
  obtain ⟨-, trace, b, last, htrace, hentries, -, -, -, -, hlast⟩ :=
    parseBlock_straightLine _ _ 64 5 (by decide) 0#64 _ _ _ hrun
  have hecall : last = ⟨16#64, .ecall, .system, 0, 33, 0, 0#64⟩ := by
    have h := congrArg List.getLast? hentries
    rw [List.getLast?_concat] at h
    exact (Option.some.inj h).symm
  exact ⟨trace, b, last, htrace, hentries, by rw [hecall]; exact .inr (.inr (.inr rfl))⟩

end Loop

end RiaJit.Translate
