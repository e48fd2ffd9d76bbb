import RiaJit.Lib.EmitLogic
import RiaJit.Util.Typedefs
import RiaJit.X86.Machine

/-!
# Register allocation at translation time

The static mapping of `init_map_context`, the three replacement registers of
`register_info`, and the helpers of `util/util.h` that load guest registers into
them. The helpers run while a block is translated and emit the moves.
-/

set_option autoImplicit false

namespace RiaJit.Translate

open EmitLogic X86

/-! ## The static mapping -/

/-- `gp_map` where `gp_mapped` holds. -/
def gpMap : Nat → Option FeReg
  | 15 => some .bx
  | 14 => some .bp
  | 13 => some .si
  | 10 => some .di
  | 8 => some .r8
  | 2 => some .r9
  | 12 => some .r10
  | 11 => some .r11
  | 9 => some .r12
  | 1 => some .r13
  | 17 => some .r14
  | 18 => some .r15
  | _ => none

/-! ## The replacement registers -/

/-- `N_REPLACE` is not zero, so that the indices `0`, `1` and `2` of the replacements exist. -/
instance nReplace_neZero : NeZero 3 := ⟨by decide⟩

/-- The translation-time part of `register_info`: which guest register each of the
`N_REPLACE` replacements holds, when it was last requested, and the counter these
times are taken from. -/
structure RegisterInfo where
  replacementContent : Fin 3 → Nat
  replacementRecency : Fin 3 → Nat
  currentRecency : Nat

/-- `getRegForIndex`: `FIRST_REG`, `SECOND_REG`, `THIRD_REG`. -/
def getRegForIndex : Fin 3 → FeReg
  | 0 => .ax
  | 1 => .dx
  | 2 => .cx

/-- What the helpers change besides emitting code: `r_info` and the global `err`. -/
structure GenState where
  rInfo : RegisterInfo
  err : Bool

/-- A step of the translator that only appends to the block. -/
abbrev Gen := EmitLogic.Gen GenState FeInstr

/-- `err |= fe_enc64(&current, ...)`: an instruction the encoder rejects leaves the
block as it is. -/
def feEnc64 (i : FeInstr) : Gen Unit :=
  if i.encodable then Gen.emit i else Gen.modify fun s => { s with err := true }

/-- A step taken only under a condition. -/
def onlyIf (c : Prop) [Decidable c] (g : Gen Unit) : Gen Unit := if c then g else pure ()

/-- `RECORD_GP_PROFILER`, under `flag_do_profile`. -/
def recordGpProfiler (flags : Flags) (reg : Nat) : Gen Unit :=
  onlyIf flags.doProfile (feEnc64 (.inc64mCell (.gpUsage reg)))

namespace RegisterInfo

/-- The replacement that holds `reg`, by the loop over the replacements. -/
def find (r : RegisterInfo) (reg : Nat) : Option (Fin 3) :=
  if r.replacementContent 0 = reg then some 0
  else if r.replacementContent 1 = reg then some 1
  else if r.replacementContent 2 = reg then some 2
  else none

/-- The replacement with the smallest recency, by the loop over the replacements. -/
def oldest (r : RegisterInfo) : Fin 3 :=
  let min : Fin 3 := if r.replacementRecency 1 < r.replacementRecency 0 then 1 else 0
  if r.replacementRecency 2 < r.replacementRecency min then 2 else min

/-- Assignment to the entries of one replacement. -/
def note (r : RegisterInfo) (i : Fin 3) (content recency : Nat) : RegisterInfo :=
  { r with
    replacementContent := Function.update r.replacementContent i content
    replacementRecency := Function.update r.replacementRecency i recency }

/-- `*r_info->current_recency += 1`. -/
def tick (r : RegisterInfo) : RegisterInfo := { r with currentRecency := r.currentRecency + 1 }

end RegisterInfo

/-- The current `r_info`. -/
def getRInfo : Gen RegisterInfo := do
  return (← Gen.get).rInfo

/-- Assignment to fields of `r_info`. -/
def modifyRInfo (f : RegisterInfo → RegisterInfo) : Gen Unit :=
  Gen.modify fun s => { s with rInfo := f s.rInfo }

/-! ## Helpers of `util.h` -/

/-- A write-back of a replacement to the register file. -/
def writeBack (reg : Nat) (replacement : FeReg) : Gen Unit :=
  feEnc64 (.mov64mrCell (.gp reg) replacement)

/-- `FE_XOR32rr` of a register with itself. -/
def zero (replacement : FeReg) : Gen Unit :=
  feEnc64 (.alurr .xor .s32 replacement replacement)

/-- `invalidateReplacement`, with `writeback` set, of the replacement at an index. -/
def invalidateReplacement (index : Fin 3) : Gen Unit := do
  let r ← getRInfo
  let currentContent := r.replacementContent index
  onlyIf (currentContent ≠ x0 ∧ currentContent ≠ invalidReg)
    (writeBack currentContent (getRegForIndex index))
  modifyRInfo fun r => r.note index invalidReg 0

/-- `invalidateAllReplacements`. -/
def invalidateAllReplacements : Gen Unit := do
  invalidateReplacement 0
  invalidateReplacement 1
  invalidateReplacement 2

/-- The branch of `loadIntoReplacement` where `requested` is present at index `i`. -/
def reuseReplacement (requested : Nat) (i : Fin 3) : Gen FeReg := do
  modifyRInfo fun r => r.note i requested r.currentRecency
  onlyIf (requested = x0) (zero (getRegForIndex i))
  return getRegForIndex i

/-- The value of `requested` is loaded into a register, or zero for `x0`. -/
def loadValue (requested : Nat) (into : FeReg) : Gen Unit :=
  if requested ≠ x0 then feEnc64 (.mov64rmCell into (.gp requested)) else zero into

/-- The branch of `loadIntoReplacement` that takes the oldest replacement. -/
def takeOldest (requested : Nat) (requireValue : Bool) : Gen FeReg := do
  let r ← getRInfo
  let min := r.oldest
  let currentlyPresent := r.replacementContent min
  onlyIf (currentlyPresent ≠ x0 ∧ currentlyPresent ≠ invalidReg)
    (writeBack currentlyPresent (getRegForIndex min))
  modifyRInfo fun r => r.note min requested r.currentRecency
  onlyIf requireValue (loadValue requested (getRegForIndex min))
  return getRegForIndex min

/-- `loadIntoReplacement`. -/
def loadIntoReplacement (requested : Nat) (requireValue : Bool) : Gen FeReg := do
  modifyRInfo RegisterInfo.tick
  let r ← getRInfo
  match r.find requested with
  | some i => reuseReplacement requested i
  | none => takeOldest requested requireValue

/-- The moves of `loadIntoSpecific` between two replacements: an exchange where both
values are needed, a move where one is. -/
def moveBetween (destination present : FeReg) (occupied requireValue : Bool) : Gen Unit :=
  if occupied ∧ requireValue then feEnc64 (.xchg64rr destination present)
  else if occupied ∧ ¬ requireValue then feEnc64 (.movrr .s64 present destination)
  else onlyIf requireValue (feEnc64 (.movrr .s64 destination present))

/-- The branch of `loadIntoSpecific` where the candidate is in another replacement. -/
def moveIntoSpecific (candidate : Nat) (presentIndex index : Fin 3) (requireValue : Bool) :
    Gen Unit := do
  let r ← getRInfo
  moveBetween (getRegForIndex index) (getRegForIndex presentIndex)
    (r.replacementRecency index ≠ 0) requireValue
  modifyRInfo fun r =>
    (r.note presentIndex (r.replacementContent index) (r.replacementRecency index)).note index
      (r.replacementContent presentIndex) r.currentRecency
  onlyIf (candidate = x0) (zero (getRegForIndex index))

/-- The branch of `loadIntoSpecific` where the candidate is in the right place. -/
def keepSpecific (candidate : Nat) (index : Fin 3) : Gen Unit := do
  onlyIf (candidate = x0) (zero (getRegForIndex index))
  modifyRInfo fun r => r.note index candidate r.currentRecency

/-- The load of `loadIntoSpecific`. -/
def loadSpecific (candidate : Nat) (destination : FeReg) (requireValue : Bool) : Gen Unit :=
  if requireValue ∧ candidate ≠ x0 then feEnc64 (.mov64rmCell destination (.gp candidate))
  else onlyIf (candidate = x0) (zero destination)

/-- The branch of `loadIntoSpecific` where the candidate is in no replacement. The
condition on the old content is the source's own: one of its two comparisons
always holds. -/
def fillSpecific (candidate : Nat) (index : Fin 3) (requireValue : Bool) : Gen Unit := do
  let r ← getRInfo
  onlyIf (r.replacementRecency index ≠ 0 ∧
      (r.replacementContent index ≠ x0 ∨ r.replacementContent index ≠ invalidReg))
    (writeBack (r.replacementContent index) (getRegForIndex index))
  loadSpecific candidate (getRegForIndex index) requireValue
  modifyRInfo fun r => r.note index candidate r.currentRecency

/-- The three cases of `loadIntoSpecific`. -/
def placeSpecific (candidate : Nat) (index : Fin 3) (requireValue : Bool)
    (present : Option (Fin 3)) : Gen Unit :=
  match present with
  | some presentIndex =>
      if index = presentIndex then keepSpecific candidate index
      else moveIntoSpecific candidate presentIndex index requireValue
  | none => fillSpecific candidate index requireValue

/-- `loadIntoSpecific`, for the replacement at an index. -/
def loadIntoSpecific (candidate : Nat) (index : Fin 3) (requireValue : Bool) : Gen FeReg := do
  modifyRInfo RegisterInfo.tick
  let r ← getRInfo
  placeSpecific candidate index requireValue (r.find candidate)
  return getRegForIndex index

/-- A source register: where it is mapped, or a replacement it is loaded into. -/
def getSrc (flags : Flags) (reg : Nat) : Gen FeReg := do
  recordGpProfiler flags reg
  match gpMap reg with
  | none => loadIntoReplacement reg true
  | some mapped => return mapped

/-- `getRs1`. -/
def getRs1 (flags : Flags) (instr : RiscInstr) : Gen FeReg := getSrc flags instr.regSrc1

/-- `getRs2`. -/
def getRs2 (flags : Flags) (instr : RiscInstr) : Gen FeReg := getSrc flags instr.regSrc2

/-- `getRd`. -/
def getRd (flags : Flags) (instr : RiscInstr) : Gen FeReg := do
  recordGpProfiler flags instr.regDest
  match gpMap instr.regDest with
  | none => loadIntoReplacement instr.regDest false
  | some mapped => return mapped

/-- A source register in the replacement at an index: loaded there, or copied there from
where it is mapped. No register is mapped into a replacement. -/
def getSrcInto (flags : Flags) (reg : Nat) (into : Fin 3) : Gen FeReg := do
  recordGpProfiler flags reg
  match gpMap reg with
  | none => loadIntoSpecific reg into true
  | some mapped =>
      if mapped = getRegForIndex into then return mapped
      else
        invalidateReplacement into
        feEnc64 (.movrr .s64 (getRegForIndex into) mapped)
        modifyRInfo RegisterInfo.tick
        modifyRInfo fun r => r.note into reg r.currentRecency
        return getRegForIndex into

/-- `getRs1Into`. -/
def getRs1Into (flags : Flags) (instr : RiscInstr) (into : Fin 3) : Gen FeReg :=
  getSrcInto flags instr.regSrc1 into

/-- `getRs2Into`. -/
def getRs2Into (flags : Flags) (instr : RiscInstr) (into : Fin 3) : Gen FeReg :=
  getSrcInto flags instr.regSrc2 into

/-- `getRdHinted`, for the replacement at an index. -/
def getRdHinted (flags : Flags) (instr : RiscInstr) (hint : Fin 3) : Gen FeReg := do
  recordGpProfiler flags instr.regDest
  match gpMap instr.regDest with
  | none => loadIntoSpecific instr.regDest hint false
  | some mapped => return mapped

/-- `invalidateOldest`. -/
def invalidateOldest : Gen FeReg := do
  let r ← getRInfo
  let min := r.oldest
  onlyIf (r.replacementRecency min ≠ 0 ∧ r.replacementContent min ≠ invalidReg)
    (invalidateReplacement min)
  return getRegForIndex min

/-- `doArithmCommutative`. -/
def doArithmCommutative (regSrc1 regSrc2 regDest : FeReg) (op : AluOp) (size : OpSize) :
    Gen Unit :=
  if regDest = regSrc1 then feEnc64 (.alurr op size regSrc1 regSrc2)
  else if regDest = regSrc2 then feEnc64 (.alurr op size regSrc2 regSrc1)
  else do
    feEnc64 (.movrr .s64 regDest regSrc1)
    feEnc64 (.alurr op size regDest regSrc2)

end RiaJit.Translate
