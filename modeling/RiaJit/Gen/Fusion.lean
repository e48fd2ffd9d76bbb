import RiaJit.Gen.Optimize
import RiaJit.Gen.ParseBlock

/-!
# Fusion covers every instruction once

A match overwrites the mnemonic of its first instruction, so no later match contains
it, and the table has no pattern that could start inside another one and reach over its
end. The dispatch loop silences what lies inside a match before it gets there.
-/

set_option autoImplicit false

namespace RiaJit.Translate

/-! ## The table -/

/-- The operands of an instruction: everything but the mnemonic. -/
def operands (instr : RiscInstr) : RiscInstr := { instr with mnem := .invalidMnem }

/-- The references of a pattern stay within it, and it does not match a pseudo
instruction. -/
structure Pattern.WellFormed (p : Pattern) : Prop where
  len : p.elements.length = p.len
  pos : 0 < p.len
  mnem : ∀ e ∈ p.elements, e.mnem ≠ .patternEmit
  h1 : ∀ e ∈ p.elements, e.h1 < p.len
  h2 : ∀ e ∈ p.elements, e.h2 < p.len
  imm : ∀ e ∈ p.elements, e.imm = 2 → 0 ≤ e.immValue ∧ e.immValue < p.len

theorem patterns_wellFormed {p : Pattern} (hp : p ∈ patterns) : p.WellFormed := by
  have hall : ∀ p ∈ patterns, p.elements.length = p.len ∧ 0 < p.len ∧
      (∀ e ∈ p.elements, e.mnem ≠ .patternEmit) ∧ (∀ e ∈ p.elements, e.h1 < p.len) ∧
      (∀ e ∈ p.elements, e.h2 < p.len) ∧
      ∀ e ∈ p.elements, e.imm = 2 → 0 ≤ e.immValue ∧ e.immValue < p.len := by decide
  obtain ⟨hlen, hpos, hmnem, hh1, hh2, himm⟩ := hall p hp
  exact ⟨hlen, hpos, hmnem, hh1, hh2, himm⟩

/-- Where the mnemonics of two patterns agree, the second one shifted by `d`. -/
def Overlap (q p : Pattern) (d : Nat) : Prop :=
  ∀ k, k < p.len → d + k < q.len →
    q.elements[d + k]?.map PatternElement.mnem = p.elements[k]?.map PatternElement.mnem

instance (q p : Pattern) (d : Nat) : Decidable (Overlap q p d) :=
  inferInstanceAs (Decidable (∀ k, k < p.len → _))

/-- No pattern starts inside another one and reaches over its end. -/
theorem patterns_nested {q p : Pattern} (hq : q ∈ patterns) (hp : p ∈ patterns) {d : Nat}
    (hd : 0 < d) (hdq : d < q.len) (hoverlap : Overlap q p d) : d + p.len ≤ q.len := by
  have hall : ∀ q ∈ patterns, ∀ d, d < q.len → ∀ p ∈ patterns, 0 < d → Overlap q p d →
      d + p.len ≤ q.len := by decide +kernel
  exact hall q hq d hdq p hp hd hoverlap

/-! ## Matching -/

/-- Every element of a pattern matches the instructions of a block from `j` on. -/
def Occurs (block : List RiscInstr) (p : Pattern) (j : Nat) : Prop :=
  matchPattern block p j = some true

section Matching

variable {block instrs : List RiscInstr} {p q : Pattern} {e : PatternElement} {j k : Nat}

/-- Both comparisons succeed. -/
theorem andAlso_eq_true {first second : Option Bool} :
    andAlso first second = some true ↔ first = some true ∧ second = some true := by
  unfold andAlso
  cases first with
  | none => simp
  | some ok =>
      cases ok with
      | false => simp
      | true => simp

/-- Neither comparison goes out of range. -/
theorem andAlso_isSome {first second : Option Bool} (h₁ : first.isSome) (h₂ : second.isSome) :
    (andAlso first second).isSome := by
  unfold andAlso
  cases first with
  | none => cases h₁
  | some ok =>
      cases ok with
      | false => rfl
      | true => exact h₂

/-- An element matches an instruction of the block in all of its parts. -/
theorem matchElement_eq_true :
    matchElement block j e k = some true ↔
      ∃ own, block[j + k]? = some own ∧ e.mnem = own.mnem ∧
        matchRs1 block j e own = some true ∧ matchRs2 block j e own = some true ∧
        matchRd block j e own = some true ∧ matchImm block j e own = some true := by
  unfold matchElement
  cases hown : block[j + k]? with
  | none => simp
  | some own =>
      simp only [Option.bind_some, andAlso_eq_true, Option.some.injEq, beq_iff_eq,
        exists_eq_left']

/-- A match fixes the mnemonics. -/
theorem matchElements_mnem {es : List PatternElement} (h : matchElements block j es k = some true)
    {n : Nat} (hn : n < es.length) :
    block[j + (k + n)]?.map RiscInstr.mnem = es[n]?.map PatternElement.mnem := by
  induction es generalizing k n with
  | nil => exact absurd hn (Nat.not_lt_zero n)
  | cons e es ih =>
      obtain ⟨hhead, htail⟩ := andAlso_eq_true.1 h
      cases n with
      | zero =>
          obtain ⟨own, hown, hmnem, -⟩ := matchElement_eq_true.1 hhead
          rw [Nat.add_zero, hown]
          exact congrArg some hmnem.symm
      | succ n =>
          have hrest := ih htail (Nat.lt_of_succ_lt_succ hn)
          rw [show k + (n + 1) = k + 1 + n by omega]
          exact hrest

/-- The mnemonics of an occurrence are those of the pattern. -/
theorem Occurs.mnem (hwf : p.WellFormed) (h : Occurs block p j) {k : Nat} (hk : k < p.len) :
    block[j + k]?.map RiscInstr.mnem = p.elements[k]?.map PatternElement.mnem := by
  have hall := h
  unfold Occurs matchPattern at hall
  rw [← hwf.len, List.take_length] at hall
  have hmnem := matchElements_mnem hall (n := k) (by rw [hwf.len]; exact hk)
  rwa [Nat.zero_add] at hmnem

/-- Two matches of which the second starts inside the first are nested. -/
theorem occurs_nested (hq : q ∈ patterns) (hp : p ∈ patterns) (hoccq : Occurs block q j)
    (hoccp : Occurs block p k) (hlt : j < k) (hin : k < j + q.len) :
    k + p.len ≤ j + q.len := by
  obtain ⟨d, rfl⟩ : ∃ d, k = j + d := ⟨k - j, by omega⟩
  have hoverlap : Overlap q p d := by
    intro n hn hdn
    rw [← hoccq.mnem (patterns_wellFormed hq) hdn, ← hoccp.mnem (patterns_wellFormed hp) hn,
      Nat.add_assoc]
  have hnested := patterns_nested hq hp (by omega) (by omega) hoverlap
  omega

/-! ### Reads within the block -/

/-- A comparison with an instruction of the block is in range. -/
theorem isDestOf_isSome {reg i : Nat} (hi : i < block.length) : (isDestOf block reg i).isSome := by
  unfold isDestOf
  rw [List.getElem?_eq_getElem hi]
  rfl

/-- An element that lies in the block is compared without an access behind it. -/
theorem matchElement_isSome (hwf : p.WellFormed) (he : e ∈ p.elements) (hk : k < p.len)
    (hend : j + p.len ≤ block.length) : (matchElement block j e k).isSome := by
  have hh1 := hwf.h1 e he
  have hh2 := hwf.h2 e he
  have himm := hwf.imm e he
  have hdest : ∀ reg i, i < p.len → (isDestOf block reg (j + i)).isSome := fun reg i hi =>
    isDestOf_isSome (by omega)
  have hsrc : (block[j + e.h1]?).isSome := by
    rw [List.getElem?_eq_getElem (by omega)]
    rfl
  unfold matchElement
  rw [List.getElem?_eq_getElem (by omega), Option.bind_some]
  -- a test reads the entry itself and those at `h1`, `h2` and the immediate's offset
  refine andAlso_isSome rfl (andAlso_isSome ?_ (andAlso_isSome ?_ (andAlso_isSome ?_ ?_)))
  · unfold matchRs1
    split_ifs
    · rfl
    · exact hdest _ _ hh1
    · rw [Option.isSome_map]
      exact hdest _ _ hh1
    · exact hdest _ _ hh2
    · rfl
  · unfold matchRs2
    split_ifs
    · rfl
    · exact hdest _ _ hh1
    · exact hdest _ _ hh2
    · rfl
  · unfold matchRd
    split_ifs
    · rfl
    · exact hdest _ _ hh1
    · exact hdest _ _ hh2
    · rw [Option.isSome_map]
      exact hsrc
    · rw [Option.isSome_map]
      exact hdest _ _ hh1
    · rfl
  · unfold matchImm
    split
    · rfl
    · rfl
    · rename_i htwo
      obtain ⟨hlo, hhi⟩ := himm htwo
      rw [List.getElem?_eq_getElem (by omega)]
      rfl
    · rfl

theorem matchElements_isSome (hwf : p.WellFormed) (hend : j + p.len ≤ block.length)
    {es : List PatternElement} (hes : ∀ e ∈ es, e ∈ p.elements) (hk : k + es.length ≤ p.len) :
    (matchElements block j es k).isSome := by
  induction es generalizing k with
  | nil => rfl
  | cons e es ih =>
      rw [List.length_cons] at hk
      exact andAlso_isSome
        (matchElement_isSome hwf (hes e List.mem_cons_self) (by omega) hend)
        (ih (fun e he => hes e (List.mem_cons_of_mem _ he)) (by omega))

/-- So is a whole pattern. -/
theorem matchPattern_isSome (hwf : p.WellFormed) (hend : j + p.len ≤ block.length) :
    (matchPattern block p j).isSome := by
  unfold matchPattern
  refine matchElements_isSome hwf hend (fun e he => List.mem_of_mem_take he) ?_
  rw [List.length_take, hwf.len]
  omega

/-! ### Matches in a block that was overwritten -/

/-- The block and what the matcher has made of it. -/
structure Overwritten (block instrs : List RiscInstr) : Prop where
  same : instrs.map operands = block.map operands
  unmarked : ∀ (x : Nat) (instr : RiscInstr), instrs[x]? = some instr →
    instr.mnem ≠ .patternEmit → block[x]? = some instr

/-- What does not depend on the mnemonic is what it was in the block. -/
theorem Overwritten.map_getElem? {β : Type} (ho : Overwritten block instrs) {f : RiscInstr → β}
    (hf : ∀ instr, f instr = f (operands instr)) (i : Nat) :
    instrs[i]?.map f = block[i]?.map f := by
  have hfun : f = f ∘ operands := funext hf
  have hsame : (instrs.map operands)[i]? = (block.map operands)[i]? := by rw [ho.same]
  rw [List.getElem?_map, List.getElem?_map] at hsame
  rw [hfun, ← Option.map_map, ← Option.map_map, hsame]

theorem Overwritten.isDestOf_eq (ho : Overwritten block instrs) (reg i : Nat) :
    isDestOf instrs reg i = isDestOf block reg i :=
  ho.map_getElem? (fun _ => rfl) i

/-- A mark matches no element, so what matches is from the block. -/
theorem Overwritten.of_matchElement (ho : Overwritten block instrs) (hmnem : e.mnem ≠ .patternEmit)
    (h : matchElement instrs j e k = some true) : matchElement block j e k = some true := by
  obtain ⟨own, hown, hsame, hrs1, hrs2, hrd, himm⟩ := matchElement_eq_true.1 h
  refine matchElement_eq_true.2
    ⟨own, ho.unmarked _ _ hown (by rwa [← hsame]), hsame, ?_, ?_, ?_, ?_⟩
  · rw [← hrs1]
    unfold matchRs1
    simp only [ho.isDestOf_eq]
  · rw [← hrs2]
    unfold matchRs2
    simp only [ho.isDestOf_eq]
  · rw [← hrd]
    unfold matchRd
    simp only [ho.isDestOf_eq, ho.map_getElem? (f := fun other => own.regDest == other.regSrc1)
      (fun _ => rfl)]
  · rw [← himm]
    unfold matchImm
    simp only [ho.map_getElem? (f := fun other => own.imm == other.imm) (fun _ => rfl)]

/-- The same for all elements of a pattern. -/
theorem Overwritten.of_matchElements (ho : Overwritten block instrs) {es : List PatternElement}
    (hes : ∀ e ∈ es, e.mnem ≠ .patternEmit) (h : matchElements instrs j es k = some true) :
    matchElements block j es k = some true := by
  induction es generalizing k with
  | nil => rfl
  | cons e es ih =>
      obtain ⟨hhead, htail⟩ := andAlso_eq_true.1 h
      exact andAlso_eq_true.2 ⟨ho.of_matchElement (hes e List.mem_cons_self) hhead,
        ih (fun e he => hes e (List.mem_cons_of_mem _ he)) htail⟩

/-- What matches in the overwritten block matches the original instructions. -/
theorem Overwritten.occurs (ho : Overwritten block instrs) (hwf : p.WellFormed)
    (h : matchPattern instrs p j = some true) : Occurs block p j :=
  ho.of_matchElements (fun e he => hwf.mnem e (List.mem_of_mem_take he)) h

end Matching

/-! ## The matcher -/

/-- An entry is an instruction as it was parsed, or the pseudo instruction of a match that
ends before the last instruction of the block. -/
def EntryOk (block : List RiscInstr) (j : Nat) (e : Entry) : Prop :=
  block[j]? = some e.instr ∨
    ∃ instr p, block[j]? = some instr ∧ e.instr = { instr with mnem := .patternEmit } ∧
      patterns[e.pattern]? = some p ∧ Occurs block p j ∧ j + p.len < block.length

/-- What the entries from `start` on are. -/
structure MarkedFrom (block : List RiscInstr) (start : Nat) (entries : List Entry) : Prop where
  length : entries.length = block.length
  entry : ∀ j e, start ≤ j → entries[j]? = some e → EntryOk block j e

section Matcher

variable {block : List RiscInstr} {entries : List Entry} {p : Pattern} {i j : Nat}

theorem getElem?_map_instr {β : Type} (entries : List Entry) (f : RiscInstr → β) (j : Nat) :
    (entries.map Entry.instr)[j]?.map f = entries[j]?.map fun e => f e.instr := by
  rw [List.getElem?_map, Option.map_map]
  rfl

/-- An entry keeps the operands of its instruction. -/
theorem EntryOk.operands {e : Entry} (h : EntryOk block j e) :
    block[j]?.map operands = some (operands e.instr) := by
  rcases h with h | ⟨instr, p, h, heq, -⟩
  · rw [h]
    rfl
  · rw [h, heq]
    rfl

theorem MarkedFrom.operands_eq (hm : MarkedFrom block i entries) (hij : i ≤ j) :
    entries[j]?.map (fun e => operands e.instr) = block[j]?.map operands := by
  cases hentry : entries[j]? with
  | none =>
      have hlen := List.getElem?_eq_none_iff.1 hentry
      rw [hm.length] at hlen
      rw [List.getElem?_eq_none_iff.2 hlen]
      rfl
  | some e => rw [(hm.entry j e hij hentry).operands, Option.map_some]

/-- A marked block differs from the block in mnemonics only. -/
theorem MarkedFrom.overwritten (hm : MarkedFrom block 0 entries) :
    Overwritten block (entries.map Entry.instr) := by
  constructor
  · apply List.ext_getElem?
    intro j
    rw [List.getElem?_map, getElem?_map_instr, List.getElem?_map]
    exact hm.operands_eq (Nat.zero_le j)
  · intro j instr hinstr hmnem
    rw [List.getElem?_map] at hinstr
    obtain ⟨e, he, rfl⟩ := Option.map_eq_some_iff.1 hinstr
    rcases hm.entry j e (Nat.zero_le j) he with h | ⟨instr, p, -, heq, -⟩
    · exact h
    · rw [heq] at hmnem
      exact absurd rfl hmnem

/-- A block without marks is marked correctly. -/
theorem markedFrom_plain (block : List RiscInstr) :
    MarkedFrom block 0 (block.map Entry.plain) := by
  refine ⟨List.length_map _, fun j e _ he => ?_⟩
  rw [List.getElem?_map] at he
  obtain ⟨instr, hinstr, rfl⟩ := Option.map_eq_some_iff.1 he
  exact .inl hinstr

/-- A match is recorded in its first entry. -/
theorem MarkedFrom.mark (hm : MarkedFrom block 0 entries) (hp : patterns[i]? = some p)
    (hfound : matchPattern (entries.map Entry.instr) p j = some true)
    (hend : j + p.len < entries.length) :
    MarkedFrom block 0 (entries.modify j (Entry.emit i)) := by
  refine ⟨by rw [List.length_modify, hm.length], fun k e _ he => ?_⟩
  rw [List.getElem?_modify] at he
  obtain ⟨old, hold, hnew⟩ := Option.map_eq_some_iff.1 he
  have hok := hm.entry k old (Nat.zero_le k) hold
  split at hnew
  · rename_i hjk
    subst hjk
    have hwf := patterns_wellFormed (List.mem_of_getElem? hp)
    have hoccurs := hm.overwritten.occurs hwf hfound
    rw [hm.length] at hend
    rcases hok with h | ⟨instr, q, h, heq, -⟩
    · exact .inr ⟨old.instr, p, h, by rw [← hnew]; rfl, by rw [← hnew]; exact hp, hoccurs, hend⟩
    · refine .inr ⟨instr, p, h, ?_, by rw [← hnew]; exact hp, hoccurs, hend⟩
      rw [← hnew]
      show { old.instr with mnem := .patternEmit } = _
      rw [heq]
  · rwa [← hnew]

/-- The search for one pattern ends, and marks only where that occurs. -/
theorem matchLoop_marked (hp : patterns[i]? = some p) (fuel : Nat)
    (hm : MarkedFrom block 0 entries) (hj : j ≤ block.length)
    (hfuel : block.length + 1 ≤ fuel + j) :
    ∃ entries', matchLoop i p fuel j entries = some entries' ∧ MarkedFrom block 0 entries' := by
  induction fuel generalizing j entries with
  | zero => omega
  | succ fuel ih =>
      unfold matchLoop
      split
      · rename_i hend
        have hwf := patterns_wellFormed (List.mem_of_getElem? hp)
        have hpos := hwf.pos
        have hlen := hm.length
        have hsome : (matchPattern (entries.map Entry.instr) p j).isSome :=
          matchPattern_isSome hwf (by rw [List.length_map]; omega)
        obtain ⟨found, hfound⟩ := Option.isSome_iff_exists.1 hsome
        rw [hfound, Option.bind_some]
        cases found with
        | false => exact ih hm (by omega) (by omega)
        | true => exact ih (hm.mark hp hfound hend) (by omega) (by omega)
      · exact ⟨entries, rfl, hm⟩

/-- The search for all patterns ends, and marks only occurrences. -/
theorem optimizePatterns_marked (block : List RiscInstr) :
    ∃ entries, optimizePatterns (block.map Entry.plain) = some entries ∧
      MarkedFrom block 0 entries := by
  have hfold : ∀ (ps : List (Pattern × Nat)) (entries : List Entry),
      (∀ x ∈ ps, patterns[x.2]? = some x.1) → MarkedFrom block 0 entries →
      ∃ entries', ps.foldlM (fun block x => matchLoop x.2 x.1 (block.length + 1) 0 block) entries =
        some entries' ∧ MarkedFrom block 0 entries' := by
    intro ps
    induction ps with
    | nil => exact fun entries _ hm => ⟨entries, rfl, hm⟩
    | cons x ps ih =>
        intro entries hps hm
        obtain ⟨entries₁, hone, hm₁⟩ := matchLoop_marked (hps x List.mem_cons_self)
          (entries.length + 1) hm (Nat.zero_le _) (by rw [hm.length])
        obtain ⟨entries', hrest, hm'⟩ :=
          ih entries₁ (fun y hy => hps y (List.mem_cons_of_mem _ hy)) hm₁
        refine ⟨entries', ?_, hm'⟩
        rw [List.foldlM_cons]
        show (matchLoop x.2 x.1 (entries.length + 1) 0 entries).bind _ = _
        rw [hone]
        exact hrest
  refine hfold _ _ (fun x hx => ?_) (markedFrom_plain block)
  exact List.mem_zipIdx_iff_getElem?.1 hx

end Matcher

/-! ## The dispatch loop -/

/-- The emissions from instruction `j` on translate each instruction once: on its own as it
was parsed, or within a match of the parsed instructions that does not contain the last
one, whose emitter gets their operands. -/
inductive Covers (block : List RiscInstr) : Nat → List Emission → Prop
  | done : Covers block block.length []
  | own {j : Nat} {instr : RiscInstr} {rest : List Emission} (hinstr : block[j]? = some instr)
      (hrest : Covers block (j + 1) rest) : Covers block j (.own j instr :: rest)
  | fused {j i : Nat} {p : Pattern} {instrs : List RiscInstr} {rest : List Emission}
      (hp : patterns[i]? = some p) (hoccurs : Occurs block p j) (hlast : j + p.len < block.length)
      (hinstrs : instrs.map operands = ((block.drop j).take p.len).map operands)
      (hrest : Covers block (j + p.len) rest) : Covers block j (.fused j i instrs :: rest)

section Dispatch

variable {block : List RiscInstr} {entries : List Entry} {p : Pattern} {i j : Nat}

/-- The entries inside an occurrence are silenced, and no others. -/
theorem getElem?_silence (entries : List Entry) (j len x : Nat) :
    (silence entries j len)[x]? =
      entries[x]?.map fun e => if j < x ∧ x < j + len then e.silent else e := by
  unfold silence
  rw [List.getElem?_mapIdx]

theorem length_silence (entries : List Entry) (j len : Nat) :
    (silence entries j len).length = entries.length := List.length_mapIdx

/-- The loop dispatches an entry and goes on behind it. -/
theorem dispatchLoop_succ (n j : Nat) (entries : List Entry) :
    dispatchLoop (n + 1) j entries =
      (dispatchEntry entries j).bind fun (emitted, entries') =>
        (dispatchLoop n (j + 1) entries').map fun rest => emitted ++ rest := rfl

/-- A silenced entry emits nothing. -/
theorem dispatchEntry_silent {e : Entry} (he : entries[j]? = some e)
    (hmnem : e.instr.mnem = .silentNop) : dispatchEntry entries j = some ([], entries) := by
  unfold dispatchEntry
  rw [he, Option.bind_some, hmnem]

/-- The loop skips what was silenced. -/
theorem dispatchLoop_skip {m n : Nat}
    (hsilent : ∀ x, j ≤ x → x < j + m → ∃ e, entries[x]? = some e ∧ e.instr.mnem = .silentNop) :
    dispatchLoop (m + n) j entries = dispatchLoop n (j + m) entries := by
  induction m generalizing j with
  | zero => rw [Nat.zero_add, Nat.add_zero]
  | succ m ih =>
      obtain ⟨e, he, hmnem⟩ := hsilent j (Nat.le_refl j) (by omega)
      rw [show m + 1 + n = (m + n) + 1 by omega, dispatchLoop_succ, dispatchEntry_silent he hmnem]
      simp only [Option.bind_some, List.nil_append, Option.map_id']
      rw [ih fun x hlo hhi => hsilent x (by omega) (by omega)]
      rw [show j + 1 + m = j + (m + 1) by omega]

/-- An entry of its own emits its instruction. -/
theorem dispatchEntry_own {e : Entry} (he : entries[j]? = some e)
    (hpattern : e.instr.mnem ≠ .patternEmit) (hsilent : e.instr.mnem ≠ .silentNop) :
    dispatchEntry entries j = some ([.own j e.instr], entries) := by
  unfold dispatchEntry
  rw [he, Option.bind_some]
  split
  · rename_i h
    exact absurd h hpattern
  · rename_i h
    exact absurd h hsilent
  · rfl

/-- A mark emits its pattern and silences the entries behind it. -/
theorem dispatchEntry_fused {e : Entry} (he : entries[j]? = some e)
    (hpattern : e.instr.mnem = .patternEmit) (hp : patterns[e.pattern]? = some p)
    (hend : j + p.len ≤ entries.length) :
    dispatchEntry entries j =
      some ([.fused j e.pattern (((entries.drop j).take p.len).map Entry.instr)],
        silence entries j p.len) := by
  unfold dispatchEntry translatePatternEmit
  rw [he, Option.bind_some, hpattern, hp]
  exact if_pos hend

/-- The operands of an occurrence are those of the block. -/
theorem MarkedFrom.operands_slice (hm : MarkedFrom block j entries) (len : Nat) :
    (((entries.drop j).take len).map Entry.instr).map operands =
      ((block.drop j).take len).map operands := by
  apply List.ext_getElem?
  intro x
  rw [List.getElem?_map, getElem?_map_instr, List.getElem?_map, List.getElem?_take,
    List.getElem?_take]
  split
  · rw [List.getElem?_drop, List.getElem?_drop]
    exact hm.operands_eq (Nat.le_add_right j x)
  · rfl

/-- Behind the silenced entries the block is marked as before. -/
theorem MarkedFrom.silenced (hm : MarkedFrom block j entries) (len : Nat) :
    MarkedFrom block (j + len) (silence entries j len) := by
  refine ⟨by rw [length_silence, hm.length], fun x e hx he => ?_⟩
  rw [getElem?_silence] at he
  obtain ⟨old, hold, hnew⟩ := Option.map_eq_some_iff.1 he
  rw [if_neg (by omega)] at hnew
  rw [← hnew]
  exact hm.entry x old (by omega) hold

/-- From the first entry of a match or of an instruction on its own, the loop covers the
rest of the block. -/
theorem dispatchLoop_covers
    (hparsed : ∀ instr ∈ block, instr.mnem ≠ .patternEmit ∧ instr.mnem ≠ .silentNop) (n : Nat)
    (hm : MarkedFrom block j entries) (hn : j + n = block.length) :
    ∃ emissions, dispatchLoop n j entries = some emissions ∧ Covers block j emissions := by
  -- on the entries that are left; a match takes several of them at once
  induction n using Nat.strongRecOn generalizing j entries with
  | ind n ih =>
      cases n with
      | zero =>
          rw [Nat.add_zero] at hn
          refine ⟨[], rfl, ?_⟩
          rw [hn]
          exact .done
      | succ n =>
          have hlen := hm.length
          obtain ⟨e, he⟩ : ∃ e, entries[j]? = some e :=
            ⟨_, List.getElem?_eq_getElem (by omega)⟩
          rw [dispatchLoop_succ]
          rcases hm.entry j e (Nat.le_refl j) he with hown |
            ⟨instr, p, hinstr, heq, hp, hocc, hlast⟩
          · obtain ⟨hpattern, hsilent⟩ := hparsed _ (List.mem_of_getElem? hown)
            obtain ⟨rest, hloop, hcovers⟩ := ih n (Nat.lt_succ_self n) (j := j + 1)
              ⟨hlen, fun x e hx => hm.entry x e (by omega)⟩ (by omega)
            refine ⟨.own j e.instr :: rest, ?_, .own hown hcovers⟩
            rw [dispatchEntry_own he hpattern hsilent, Option.bind_some]
            show (dispatchLoop n (j + 1) entries).map _ = _
            rw [hloop]
            rfl
          · have hpos := (patterns_wellFormed (List.mem_of_getElem? hp)).pos
            have hpattern : e.instr.mnem = .patternEmit := by rw [heq]
            obtain ⟨rest, hloop, hcovers⟩ := ih (n + 1 - p.len) (by omega)
              (hm.silenced p.len) (by omega)
            refine ⟨_, ?_, .fused hp hocc hlast (hm.operands_slice p.len) hcovers⟩
            rw [dispatchEntry_fused he hpattern hp (by omega), Option.bind_some]
            show (dispatchLoop n (j + 1) (silence entries j p.len)).map _ = _
            -- the loop goes over the other entries of the match without emitting anything
            have hsilent : ∀ x, j + 1 ≤ x → x < j + 1 + (p.len - 1) →
                ∃ e, (silence entries j p.len)[x]? = some e ∧ e.instr.mnem = .silentNop := by
              intro x hlo hhi
              obtain ⟨old, hold⟩ : ∃ old, entries[x]? = some old :=
                ⟨_, List.getElem?_eq_getElem (by omega)⟩
              refine ⟨old.silent, ?_, rfl⟩
              rw [getElem?_silence, hold, Option.map_some, if_pos (by omega)]
            rw [show n = p.len - 1 + (n + 1 - p.len) by omega, dispatchLoop_skip hsilent,
              show j + 1 + (p.len - 1) = j + p.len by omega, hloop]
            rfl

end Dispatch

/-! ## Blocks -/

/-- A parsed instruction is no mark. -/
theorem classified_parsed {instr : RiscInstr} (hclass : instr.Classified) :
    instr.mnem ≠ .patternEmit ∧ instr.mnem ≠ .silentNop := by
  have hcontrol : instr.mnem.controlType ≠ some .pseudo := by
    rw [hclass.control]
    intro h
    cases hoptype : instr.optype with
    | pseudo => exact hclass.notPseudo hoptype
    | _ =>
        rw [hoptype] at h
        simp [RiscOptype.controlType] at h
  constructor
  · intro h
    rw [h] at hcontrol
    exact hcontrol rfl
  · intro h
    rw [h] at hcontrol
    exact hcontrol rfl

/-- What the parser returns for a block has no pseudo instruction of the matcher. -/
theorem isBlock_parsed {env : Env} {maxCount : Nat} {a : RiscAddr} {entries : List RiscInstr}
    (h : IsBlock env maxCount a entries) :
    ∀ instr ∈ entries, instr.mnem ≠ .patternEmit ∧ instr.mnem ≠ .silentNop := by
  obtain ⟨trace, b, last, htrace, rfl, hend, -⟩ := h
  intro entry hmem
  rcases List.mem_append.1 hmem with hmem | hmem
  · obtain ⟨instr, hinstr, rfl⟩ := List.mem_map.1 hmem
    refine htrace.forall_mem (p := fun instr => (rewritten instr).mnem ≠ .patternEmit ∧
      (rewritten instr).mnem ≠ .silentNop) (fun instr _ hclass _ => ?_) instr
      (List.mem_of_mem_filter hinstr)
    by_cases hjal : instr.mnem = .jal
    · unfold rewritten
      rw [hjal]
      exact ⟨nofun, nofun⟩
    · rcases (rewritten_fields hjal).2 with h | h
      · rw [h]
        exact classified_parsed hclass
      · rw [h]
        exact ⟨nofun, nofun⟩
  · obtain rfl := List.mem_singleton.1 hmem
    cases hend with
    | terminator hfetch _ _ =>
        have hclass := classified_parsed (fetched_sound hfetch).2
        unfold rewrittenEnd
        split
        · exact ⟨nofun, nofun⟩
        · exact hclass
        · exact hclass
    | cutOff _ => exact ⟨nofun, nofun⟩

/-- The matcher found a pattern at `j`. -/
def MarkAt (entries : List Entry) (j : Nat) (p : Pattern) : Prop :=
  ∃ e : Entry, entries[j]? = some e ∧ e.instr.mnem = .patternEmit ∧ patterns[e.pattern]? = some p

/-- A match that starts inside another one ends inside it. -/
def NestedMarks (entries : List Entry) : Prop :=
  ∀ j k p q, MarkAt entries j p → MarkAt entries k q → j < k → k < j + p.len →
    k + q.len ≤ j + p.len

/-- A mark stands for an occurrence of its pattern. -/
theorem MarkedFrom.markAt {block : List RiscInstr} {entries : List Entry} {j : Nat} {p : Pattern}
    (hparsed : ∀ instr ∈ block, instr.mnem ≠ .patternEmit ∧ instr.mnem ≠ .silentNop)
    (hm : MarkedFrom block 0 entries) (hmark : MarkAt entries j p) :
    p ∈ patterns ∧ Occurs block p j := by
  obtain ⟨e, he, hmnem, hp⟩ := hmark
  rcases hm.entry j e (Nat.zero_le j) he with h | ⟨instr, q, -, -, hq, hocc, -⟩
  · exact absurd hmnem (hparsed _ (List.mem_of_getElem? h)).1
  · obtain rfl := Option.some.inj (hp.symm.trans hq)
    exact ⟨List.mem_of_getElem? hp, hocc⟩

/-- For every block without pseudo instructions of the matcher, matching and dispatch read
nothing outside the block; what was marked are matches of the parsed instructions before
the last one, nested where one starts inside another; and each instruction is translated
exactly once. -/
theorem fusion_covers_once (block : List RiscInstr)
    (hparsed : ∀ instr ∈ block, instr.mnem ≠ .patternEmit ∧ instr.mnem ≠ .silentNop) :
    ∃ entries emissions, optimizePatterns (block.map Entry.plain) = some entries ∧
      translatedWithFusion block = some emissions ∧ entries.length = block.length ∧
      (∀ j e, entries[j]? = some e → EntryOk block j e) ∧ NestedMarks entries ∧
      Covers block 0 emissions := by
  obtain ⟨entries, hentries, hm⟩ := optimizePatterns_marked block
  obtain ⟨emissions, hloop, hcovers⟩ := dispatchLoop_covers hparsed entries.length hm
    (by rw [hm.length, Nat.zero_add])
  refine ⟨entries, emissions, hentries, ?_, hm.length, fun j e => hm.entry j e (Nat.zero_le j),
    fun j k p q hmark hmark' hlt hin => ?_, hcovers⟩
  · unfold translatedWithFusion
    rw [hentries]
    exact hloop
  · obtain ⟨hmem, hocc⟩ := hm.markAt hparsed hmark
    obtain ⟨hmem', hocc'⟩ := hm.markAt hparsed hmark'
    exact occurs_nested hmem hmem' hocc hocc' hlt hin

/-! ## The block that is dispatched -/

/-- What is emitted is an entry of the block or one of the matcher's, and as many as the block
has. -/
theorem Covers.entries {block : List RiscInstr} {j : Nat} {emissions : List Emission}
    (h : Covers block j emissions) :
    (∀ entry ∈ emissions.flatMap Emission.entries,
        entry ∈ block ∨ entry.mnem = .patternEmit ∨ entry.mnem = .silentNop) ∧
      j + (emissions.flatMap Emission.entries).length = block.length := by
  induction h with
  | done => exact ⟨fun _ h => absurd h List.not_mem_nil, Nat.add_zero _⟩
  | own hinstr _ ih =>
      obtain ⟨hmem, hlen⟩ := ih
      rw [List.flatMap_cons, List.length_append]
      refine ⟨fun entry hentry => ?_, by show _ + (1 + _) = _; omega⟩
      rcases List.mem_append.1 hentry with hentry | hentry
      · obtain rfl := List.mem_singleton.1 hentry
        exact .inl (List.mem_of_getElem? hinstr)
      · exact hmem entry hentry
  | @fused j i p instrs rest hp hoccurs hlast hinstrs _ ih =>
      obtain ⟨hmem, hlen⟩ := ih
      have htaken : instrs.length = p.len := by
        have h := congrArg List.length hinstrs
        rw [List.length_map, List.length_map, List.length_take, List.length_drop] at h
        omega
      -- a match leaves one entry to be emitted and silences the others
      have hown : ∀ entry ∈ (Emission.fused j i instrs).entries,
          entry.mnem = .patternEmit ∨ entry.mnem = .silentNop := by
        intro entry hentry
        cases instrs with
        | nil => exact absurd hentry List.not_mem_nil
        | cons first others =>
            rcases List.mem_cons.1 hentry with rfl | hentry
            · exact .inl rfl
            · obtain ⟨instr, -, rfl⟩ := List.mem_map.1 hentry
              exact .inr rfl
      have hcount : (Emission.fused j i instrs).entries.length = instrs.length := by
        cases instrs with
        | nil => rfl
        | cons first others =>
            show (others.map _).length + 1 = others.length + 1
            rw [List.length_map]
      rw [List.flatMap_cons, List.length_append, hcount, htaken]
      refine ⟨fun entry hentry => ?_, by omega⟩
      rcases List.mem_append.1 hentry with hentry | hentry
      · exact .inr (hown entry hentry)
      · exact hmem entry hentry

/-- The matcher brings in no mnemonics but its own, and no entries. -/
theorem matchedBlock_entries {block : List RiscInstr}
    (hparsed : ∀ instr ∈ block, instr.mnem ≠ .patternEmit ∧ instr.mnem ≠ .silentNop) :
    (∀ entry ∈ matchedBlock block,
        entry ∈ block ∨ entry.mnem = .patternEmit ∨ entry.mnem = .silentNop) ∧
      (matchedBlock block).length = block.length := by
  obtain ⟨entries, hentries, hm⟩ := optimizePatterns_marked block
  obtain ⟨emissions, hloop, hcovers⟩ := dispatchLoop_covers hparsed entries.length hm
    (by rw [hm.length, Nat.zero_add])
  have hrun : translatedWithFusion block = some emissions := by
    unfold translatedWithFusion
    rw [hentries]
    exact hloop
  unfold matchedBlock
  rw [hrun]
  obtain ⟨hmem, hlen⟩ := hcovers.entries
  rw [Nat.zero_add] at hlen
  exact ⟨hmem, hlen⟩

/-- Where fusion is on, the pattern matcher of the environment is that of `gen/optimize.c`. -/
def MatchesPatterns (env : Env) : Prop :=
  env.flags.translateOptFusion = true → env.optimizePatterns = matchedBlock

/-- The same for the block that the matcher leaves. -/
theorem optimized_entries {env : Env} (hmatcher : MatchesPatterns env) {block : List RiscInstr}
    (hparsed : ∀ instr ∈ block, instr.mnem ≠ .patternEmit ∧ instr.mnem ≠ .silentNop) :
    (∀ entry ∈ optimized env block,
        entry ∈ block ∨ entry.mnem = .patternEmit ∨ entry.mnem = .silentNop) ∧
      (optimized env block).length = block.length := by
  unfold optimized
  split
  · rename_i hfusion
    rw [hmatcher hfusion]
    exact matchedBlock_entries hparsed
  · exact ⟨fun _ h => .inl h, rfl⟩

/-- A block with a match inside a match: `LUI`, `ADDI`, `SLLI`, `SRLI` and a jump. -/
def fusedBlock : List RiscInstr := [
  ⟨0x1000#64, .lui, .upperImmediate, 33, 33, 5, 0x2000#64⟩,
  ⟨0x1004#64, .addi, .immediate, 5, 33, 6, 0#64⟩,
  ⟨0x1008#64, .slli, .immediate, 7, 33, 5, 32#64⟩,
  ⟨0x100c#64, .srli, .immediate, 5, 33, 5, 32#64⟩,
  ⟨0x1010#64, .jal, .jump, 33, 33, 1, 8#64⟩]

theorem fusion_covers_once_fusedBlock :
    ∃ entries emissions, optimizePatterns (fusedBlock.map Entry.plain) = some entries ∧
      translatedWithFusion fusedBlock = some emissions ∧ entries.length = fusedBlock.length ∧
      (∀ j e, entries[j]? = some e → EntryOk fusedBlock j e) ∧ NestedMarks entries ∧
      Covers fusedBlock 0 emissions :=
  fusion_covers_once fusedBlock (by decide)

/-- The place of an emission and the index of its pattern. -/
def Emission.place : Emission → Nat × Option Nat
  | .own j _ => (j, none)
  | .fused j i _ => (j, some i)

example : (translatedWithFusion fusedBlock).map (List.map Emission.place) =
    some [(0, some 1), (4, none)] := by decide +kernel

end RiaJit.Translate
