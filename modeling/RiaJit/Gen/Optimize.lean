import RiaJit.Util.Typedefs

/-!
# Macro fusion

`gen/optimize.c` and the table of `gen/instr/patterns.c`. The matcher works on a block
that it overwrites: the first instruction of a match becomes a pseudo instruction that
names the pattern, the others stay until that one is dispatched. A read outside the
block has no result.
-/

set_option autoImplicit false

namespace RiaJit.Translate

/-! ## Patterns -/

/-- `DONT_CARE` of `t_risc_reg_meta`: any register. -/
abbrev dontCare : Nat := 33

/-- `rs1_h1`: the first source of the element at `h1`. -/
abbrev rs1H1 : Nat := 34

/-- `rd_h1`: the destination of the element at `h1`. -/
abbrev rdH1 : Nat := 36

/-- `rd_h2`: the destination of the element at `h2`. -/
abbrev rdH2 : Nat := 39

/-- `not_rd_h1`: any register but that destination. -/
abbrev notRdH1 : Nat := 40

/-- `pattern_element`. -/
structure PatternElement where
  mnem : RiscMnem
  rs1 : Nat
  rs2 : Nat
  rd : Nat
  h1 : Nat
  h2 : Nat
  imm : Nat
  immValue : Int
  deriving DecidableEq, Repr

/-- The functions that `patterns` refers to. -/
inductive PatternEmitter where
  | emitPattern0 | emitPattern2 | emitPattern3 | emitPattern4 | emitPattern5 | emitPattern6
  | emitPattern7 | emitPattern8SEXTW | emitPattern9 | emitPattern10NOP | emitPattern11MV
  | emitPattern12NOT | emitPattern13NEG | emitPattern14NEGW | emitPattern15SEQZ
  | emitPattern16SNEZ | emitPattern17SLTZ | emitPattern18SGTZ | emitPattern19LI
  | emitPattern20SmallLI | emitPattern21 | emitPattern22 | emitPattern23
  deriving DecidableEq, Repr

/-- `pattern`. -/
structure Pattern where
  elements : List PatternElement
  len : Nat
  emitter : Option PatternEmitter
  deriving DecidableEq, Repr

/-- `p_0_elem`. -/
def p0Elem : List PatternElement := [
  ⟨.lui, dontCare, dontCare, dontCare, 0, 0, 0, 0⟩,
  ⟨.ld, rdH1, dontCare, dontCare, 0, 0, 0, 0⟩,
  ⟨.addi, rdH1, dontCare, rdH1, 1, 0, 0, 0⟩,
  ⟨.sd, rdH2, rdH1, dontCare, 1, 0, 2, 1⟩]

/-- `p_1_elem`. -/
def p1Elem : List PatternElement := [
  ⟨.lui, dontCare, dontCare, dontCare, 0, 0, 0, 0⟩,
  ⟨.lw, rdH1, dontCare, dontCare, 0, 0, 0, 0⟩,
  ⟨.addiw, rdH1, dontCare, rdH1, 1, 0, 0, 0⟩,
  ⟨.sw, rdH2, rdH1, dontCare, 1, 0, 2, 1⟩]

/-- `p_2_elem`. -/
def p2Elem : List PatternElement := [
  ⟨.auipc, dontCare, dontCare, dontCare, 0, 0, 0, 0⟩,
  ⟨.addi, rdH1, dontCare, dontCare, 0, 0, 0, 0⟩,
  ⟨.lw, rdH1, dontCare, dontCare, 1, 0, 0, 0⟩,
  ⟨.addiw, rdH1, dontCare, dontCare, 2, 0, 0, 0⟩,
  ⟨.sw, rdH1, rdH2, dontCare, 0, 3, 2, 2⟩]

/-- `p_3_elem`. -/
def p3Elem : List PatternElement := [
  ⟨.auipc, dontCare, dontCare, dontCare, 0, 0, 0, 0⟩,
  ⟨.addi, rdH1, dontCare, rdH1, 0, 0, 0, 0⟩]

/-- `p_4_elem`. -/
def p4Elem : List PatternElement := [
  ⟨.auipc, dontCare, dontCare, dontCare, 0, 0, 0, 0⟩,
  ⟨.lw, rdH1, dontCare, rdH1, 0, 0, 0, 0⟩]

/-- `p_5_elem`. -/
def p5Elem : List PatternElement := [
  ⟨.auipc, dontCare, dontCare, dontCare, 0, 0, 0, 0⟩,
  ⟨.ld, rdH1, dontCare, rdH1, 0, 0, 0, 0⟩]

/-- `p_6_elem`. -/
def p6Elem : List PatternElement := [
  ⟨.slli, dontCare, dontCare, dontCare, 0, 0, 1, 32⟩,
  ⟨.srli, rdH1, dontCare, rdH1, 0, 0, 1, 32⟩]

/-- `p_7_elem`. -/
def p7Elem : List PatternElement := [
  ⟨.addiw, dontCare, dontCare, dontCare, 0, 0, 0, 0⟩,
  ⟨.slli, rdH1, dontCare, rdH1, 0, 0, 1, 32⟩,
  ⟨.srli, rdH1, dontCare, rdH1, 0, 0, 1, 32⟩]

/-- `p_8_elem`. -/
def p8Elem : List PatternElement := [
  ⟨.addiw, dontCare, dontCare, dontCare, 0, 0, 1, 0⟩]

/-- `p_9_elem`. -/
def p9Elem : List PatternElement := [
  ⟨.lui, dontCare, dontCare, dontCare, 0, 0, 0, 0⟩,
  ⟨.addi, rdH1, dontCare, notRdH1, 0, 0, 1, 0⟩,
  ⟨.slli, notRdH1, dontCare, rdH2, 1, 0, 1, 32⟩,
  ⟨.srli, rdH1, dontCare, rdH1, 2, 0, 1, 32⟩]

/-- `p_10_elem`. -/
def p10Elem : List PatternElement := [
  ⟨.addi, x0, dontCare, x0, 0, 0, 1, 0⟩]

/-- `p_11_elem`. -/
def p11Elem : List PatternElement := [
  ⟨.addi, dontCare, dontCare, dontCare, 0, 0, 1, 0⟩]

/-- `p_12_elem`. -/
def p12Elem : List PatternElement := [
  ⟨.xori, dontCare, dontCare, dontCare, 0, 0, 1, -1⟩]

/-- `p_13_elem`. -/
def p13Elem : List PatternElement := [
  ⟨.sub, x0, dontCare, dontCare, 0, 0, 0, 0⟩]

/-- `p_14_elem`. -/
def p14Elem : List PatternElement := [
  ⟨.subw, x0, dontCare, dontCare, 0, 0, 0, 0⟩]

/-- `p_15_elem`. -/
def p15Elem : List PatternElement := [
  ⟨.sltiu, dontCare, dontCare, dontCare, 0, 0, 1, 1⟩]

/-- `p_16_elem`. -/
def p16Elem : List PatternElement := [
  ⟨.sltu, x0, dontCare, dontCare, 0, 0, 0, 0⟩]

/-- `p_17_elem`. -/
def p17Elem : List PatternElement := [
  ⟨.slt, dontCare, x0, dontCare, 0, 0, 0, 0⟩]

/-- `p_18_elem`. -/
def p18Elem : List PatternElement := [
  ⟨.slt, x0, dontCare, dontCare, 0, 0, 0, 0⟩]

/-- `p_19_elem`. -/
def p19Elem : List PatternElement := [
  ⟨.lui, dontCare, dontCare, dontCare, 0, 0, 0, 0⟩,
  ⟨.addi, rdH1, dontCare, rdH1, 0, 0, 0, 0⟩]

/-- `p_20_elem`. -/
def p20Elem : List PatternElement := [
  ⟨.addi, x0, dontCare, dontCare, 0, 0, 0, 0⟩]

/-- `p_21_elem`. -/
def p21Elem : List PatternElement := [
  ⟨.slli, dontCare, dontCare, dontCare, 0, 0, 1, 32⟩,
  ⟨.srli, rdH1, dontCare, rdH1, 0, 0, 0, 0⟩]

/-- `p_22_elem`. -/
def p22Elem : List PatternElement := [
  ⟨.andi, dontCare, dontCare, dontCare, 0, 0, 1, 0xff⟩]

/-- `p_23_elem`. -/
def p23Elem : List PatternElement := [
  ⟨.addiw, dontCare, dontCare, dontCare, 0, 0, 0, 0⟩,
  ⟨.andi, rdH1, dontCare, rdH1, 0, 0, 1, 0xff⟩]

/-- `patterns`, with the entry that stops the matcher and those after it. -/
def patternTable : List Pattern := [
  ⟨p2Elem, 5, some .emitPattern2⟩,
  ⟨p9Elem, 4, some .emitPattern9⟩,
  ⟨p7Elem, 3, some .emitPattern7⟩,
  ⟨p3Elem, 2, some .emitPattern3⟩,
  ⟨p4Elem, 2, some .emitPattern4⟩,
  ⟨p5Elem, 2, some .emitPattern5⟩,
  ⟨p6Elem, 2, some .emitPattern6⟩,
  ⟨p21Elem, 2, some .emitPattern21⟩,
  ⟨p19Elem, 2, some .emitPattern19LI⟩,
  ⟨p23Elem, 2, some .emitPattern23⟩,
  ⟨p11Elem, 1, some .emitPattern11MV⟩,
  ⟨p20Elem, 1, some .emitPattern20SmallLI⟩,
  ⟨p8Elem, 1, some .emitPattern8SEXTW⟩,
  ⟨p22Elem, 1, some .emitPattern22⟩,
  ⟨p10Elem, 1, some .emitPattern10NOP⟩,
  ⟨p12Elem, 1, some .emitPattern12NOT⟩,
  ⟨p13Elem, 1, some .emitPattern13NEG⟩,
  ⟨p14Elem, 1, some .emitPattern14NEGW⟩,
  ⟨p15Elem, 1, some .emitPattern15SEQZ⟩,
  ⟨p16Elem, 1, some .emitPattern16SNEZ⟩,
  ⟨p17Elem, 1, some .emitPattern17SLTZ⟩,
  ⟨p18Elem, 1, some .emitPattern18SGTZ⟩,
  ⟨[], 0, none⟩,
  ⟨p0Elem, 4, some .emitPattern0⟩,
  ⟨p1Elem, 4, some .emitPattern0⟩,
  ⟨[], 0, none⟩]

/-- The patterns that the matcher tries, in its order. -/
def patterns : List Pattern := patternTable.takeWhile fun p => decide (0 < p.len)

/-! ## Matching -/

section Matching

variable (block : List RiscInstr) (j : Nat) (e : PatternElement) (own : RiscInstr)

/-- Whether a register is the destination of another instruction of the block. -/
def isDestOf (reg i : Nat) : Option Bool := block[i]?.map fun other => reg == other.regDest

/-- The `rs1` match. -/
def matchRs1 : Option Bool :=
  if e.rs1 = dontCare then some true
  else if e.rs1 = rdH1 then isDestOf block own.regSrc1 (j + e.h1)
  else if e.rs1 = notRdH1 then (isDestOf block own.regSrc1 (j + e.h1)).map not
  else if e.rs1 = rdH2 then isDestOf block own.regSrc1 (j + e.h2)
  else some (own.regSrc1 == e.rs1)

/-- The `rs2` match. -/
def matchRs2 : Option Bool :=
  if e.rs2 = dontCare then some true
  else if e.rs2 = rdH1 then isDestOf block own.regSrc2 (j + e.h1)
  else if e.rs2 = rdH2 then isDestOf block own.regSrc2 (j + e.h2)
  else some (own.regSrc2 == e.rs2)

/-- The `rd` match. -/
def matchRd : Option Bool :=
  if e.rd = dontCare then some true
  else if e.rd = rdH1 then isDestOf block own.regDest (j + e.h1)
  else if e.rd = rdH2 then isDestOf block own.regDest (j + e.h2)
  else if e.rd = rs1H1 then block[j + e.h1]?.map fun other => own.regDest == other.regSrc1
  else if e.rd = notRdH1 then (isDestOf block own.regDest (j + e.h1)).map not
  else some (own.regDest == e.rd)

/-- The `imm` match. -/
def matchImm : Option Bool :=
  match e.imm with
  | 0 => some true
  | 1 => some (own.imm == BitVec.ofInt 64 e.immValue)
  | 2 => block[((j : Int) + e.immValue).toNat]?.map fun other => own.imm == other.imm
  | _ => some false

/-- A check that is made only if the one before succeeded. -/
def andAlso (first second : Option Bool) : Option Bool :=
  first.bind fun ok => if ok then second else some false

/-- One element of a pattern, at position `k` of a match that starts at `j`. -/
def matchElement (k : Nat) : Option Bool :=
  block[j + k]?.bind fun own =>
    andAlso (some (e.mnem == own.mnem))
      (andAlso (matchRs1 block j e own)
        (andAlso (matchRs2 block j e own)
          (andAlso (matchRd block j e own) (matchImm block j e own))))

/-- The elements of a pattern from position `k` on. -/
def matchElements : List PatternElement → Nat → Option Bool
  | [], _ => some true
  | e :: es, k => andAlso (matchElement block j e k) (matchElements es (k + 1))

end Matching

/-- All elements of a pattern, for a match that starts at `j`. -/
def matchPattern (block : List RiscInstr) (p : Pattern) (j : Nat) : Option Bool :=
  matchElements block j (p.elements.take p.len) 0

/-! ## Rewriting -/

/-- An entry of the block. `optype` holds the index of a pattern where a match was
found, which is no `t_risc_optype`; here it has a field of its own. -/
structure Entry where
  instr : RiscInstr
  pattern : Nat
  deriving DecidableEq, Repr

namespace Entry

/-- An entry that is not part of a match. -/
def plain (instr : RiscInstr) : Entry := ⟨instr, 0⟩

/-- The pseudo instruction for a match of a pattern. -/
def emit (i : Nat) (e : Entry) : Entry := ⟨{ e.instr with mnem := .patternEmit }, i⟩

/-- An entry whose instruction was translated as part of a match. -/
def silent (e : Entry) : Entry := { e with instr := { e.instr with mnem := .silentNop } }

end Entry

/-- The loop over the block, for the pattern with index `i`, from position `j` on. -/
def matchLoop (i : Nat) (p : Pattern) : Nat → Nat → List Entry → Option (List Entry)
  | 0, _, _ => none
  | fuel + 1, j, block =>
      if j + p.len < block.length then
        (matchPattern (block.map Entry.instr) p j).bind fun found =>
          if found then matchLoop i p fuel (j + p.len - 1 + 1) (block.modify j (Entry.emit i))
          else matchLoop i p fuel (j + 1) block
      else some block

/-- `optimize_patterns`. -/
def optimizePatterns (block : List Entry) : Option (List Entry) :=
  patterns.zipIdx.foldlM (fun block (p, i) => matchLoop i p (block.length + 1) 0 block) block

/-! ## Dispatch -/

/-- What the dispatch loop translates: an instruction on its own, or a match of a
pattern, for which the emitter is given the entries. -/
inductive Emission where
  | own (j : Nat) (instr : RiscInstr)
  | fused (j i : Nat) (instrs : List RiscInstr)
  deriving DecidableEq, Repr

/-- The entries of a match but its first are silenced. -/
def silence (block : List Entry) (j len : Nat) : List Entry :=
  block.mapIdx fun x e => if j < x ∧ x < j + len then e.silent else e

/-- `translate_pattern_emit`, for the entry at `j`. -/
def translatePatternEmit (block : List Entry) (j : Nat) (e : Entry) :
    Option (List Emission × List Entry) :=
  patterns[e.pattern]?.bind fun p =>
    if j + p.len ≤ block.length then
      some ([.fused j e.pattern (((block.drop j).take p.len).map Entry.instr)],
        silence block j p.len)
    else none

/-- `dispatch_instr`, for the entry at `j`. -/
def dispatchEntry (block : List Entry) (j : Nat) : Option (List Emission × List Entry) :=
  block[j]?.bind fun e =>
    match e.instr.mnem with
    | .patternEmit => translatePatternEmit block j e
    | .silentNop => some ([], block)
    | _ => some ([.own j e.instr], block)

/-- The loop of `translate_block_instructions`: `n` entries from `j` on. -/
def dispatchLoop : Nat → Nat → List Entry → Option (List Emission)
  | 0, _, _ => some []
  | n + 1, j, block =>
      (dispatchEntry block j).bind fun (emitted, block') =>
        (dispatchLoop n (j + 1) block').map fun rest => emitted ++ rest

/-- What is translated of a block where fusion is on. -/
def translatedWithFusion (block : List RiscInstr) : Option (List Emission) :=
  (optimizePatterns (block.map Entry.plain)).bind fun entries =>
    dispatchLoop entries.length 0 entries

/-- The entries that an emission takes: a match is its pseudo instruction and what that one
has silenced. -/
def Emission.entries : Emission → List RiscInstr
  | .own _ instr => [instr]
  | .fused _ _ [] => []
  | .fused _ _ (first :: rest) =>
      { first with mnem := .patternEmit } :: rest.map fun instr => { instr with mnem := .silentNop }

/-- A block as the dispatch loop gets to see it, entry by entry. -/
def matchedBlock (block : List RiscInstr) : List RiscInstr :=
  match translatedWithFusion block with
  | some emissions => emissions.flatMap Emission.entries
  | none => block

end RiaJit.Translate
