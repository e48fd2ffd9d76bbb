import RiaJit.Gen.FpCode

/-!
# Static rounding modes

`saveAndSetRound` and `restoreFpRound` around the code of an instruction. The first helper keeps
the mode in one word and loads `MXCSR` with another mode; the second one puts the old mode and the
flags that were raised since then together. Both take a register that holds no operand.
-/

set_option autoImplicit false

namespace RiaJit.Translate

open EmitLogic ForwardJumps X86 RiaJit.Runtime

/-! ## Control words -/

/-- The control word with another rounding mode. -/
def setRound (w mxcsr : BitVec 32) : BitVec 32 :=
  mxcsr &&& 0xffff9fff#32 ||| ((w <<< sseRoundShift).setWidth 16).setWidth 32

/-- What is kept in the word: the rounding mode and the upper half. -/
def savedRound (mxcsr : BitVec 32) : BitVec 32 := mxcsr &&& 0xffff6000#32

/-- The control word that is put together in the end. -/
def restoredRound (saved mxcsr : BitVec 32) : BitVec 32 := saved ||| mxcsr &&& 0x9fff#32

section Words

theorem getLsbD_low {n : Nat} (v : BitVec 64) (x : BitVec n) {i : Nat} (hi : i < 64) :
    (low n v x).getLsbD i = if i < n then x.getLsbD i else v.getLsbD i := by
  unfold low
  rw [BitVec.getLsbD_or, BitVec.getLsbD_shiftLeft, BitVec.getLsbD_ushiftRight,
    BitVec.getLsbD_setWidth]
  by_cases hn : i < n
  · simp [hi, hn]
  · have hsum : n + (i - n) = i := by omega
    have hzero : x.getLsbD i = false := BitVec.getLsbD_of_ge x i (Nat.le_of_not_lt hn)
    simp [hi, hn, hsum, hzero]

/-- The bits of the masks below the upper half. -/
theorem mask_bits : ∀ i : Fin 32,
    (0xffff9fff#32).getLsbD i = (if i.val < 16 then (0x9fff#16).getLsbD i else true) ∧
      (0xffff6000#32).getLsbD i = (if i.val < 16 then (0x6000#16).getLsbD i else true) ∧
      (0x9fff#32).getLsbD i = (if i.val < 16 then (0x9fff#16).getLsbD i else false) ∧
      (if i.val < 16 then (0x6000#16).getLsbD i = !(0x9fff#16).getLsbD i else True) ∧
      (if i.val < 6 then (0x9fff#16).getLsbD i = true else True) := by decide

/-- The control word that the first helper puts together in a register. -/
theorem setRound_low (mxcsr : BitVec 32) (mode : BitVec 16) :
    (low 16 (low 16 (mxcsr.setWidth 64) (mxcsr.setWidth 16 &&& 0x9fff#16))
        (mxcsr.setWidth 16 &&& 0x9fff#16 ||| mode)).setWidth 32 =
      mxcsr &&& 0xffff9fff#32 ||| mode.setWidth 32 := by
  apply BitVec.eq_of_getLsbD_eq
  intro i hi
  obtain ⟨hset, -⟩ := mask_bits ⟨i, hi⟩
  dsimp only at hset
  have hi' : i < 64 := by omega
  simp only [BitVec.getLsbD_or, BitVec.getLsbD_and, BitVec.getLsbD_setWidth, getLsbD_low _ _ hi',
    hset]
  by_cases hlow : i < 16
  · simp [hlow, hi]
  · have hmode : mode.getLsbD i = false := BitVec.getLsbD_of_ge mode i (Nat.le_of_not_lt hlow)
    simp [hlow, hi, hi', hmode]

/-- What the first helper leaves in the word. -/
theorem savedRound_low (v : BitVec 64) (mxcsr : BitVec 32) :
    (low 16 (low 32 v mxcsr) ((low 32 v mxcsr).setWidth 16 &&& 0x6000#16)).setWidth 32 =
      savedRound mxcsr := by
  unfold savedRound
  apply BitVec.eq_of_getLsbD_eq
  intro i hi
  obtain ⟨-, hsave, -⟩ := mask_bits ⟨i, hi⟩
  dsimp only at hsave
  have hi' : i < 64 := by omega
  simp only [BitVec.getLsbD_and, BitVec.getLsbD_setWidth, getLsbD_low _ _ hi', hsave]
  by_cases hlow : i < 16
  · simp [hlow, hi]
  · simp [hlow, hi]

/-- What the second helper leaves in the word. -/
theorem restoredRound_low (v : BitVec 64) (mxcsr : BitVec 32) :
    (low 16 v (v.setWidth 16 ||| mxcsr.setWidth 16 &&& 0x9fff#16)).setWidth 32 =
      restoredRound (v.setWidth 32) mxcsr := by
  unfold restoredRound
  apply BitVec.eq_of_getLsbD_eq
  intro i hi
  obtain ⟨-, -, hkeep, -⟩ := mask_bits ⟨i, hi⟩
  dsimp only at hkeep
  have hi' : i < 64 := by omega
  simp only [BitVec.getLsbD_or, BitVec.getLsbD_and, BitVec.getLsbD_setWidth, getLsbD_low _ _ hi',
    hkeep]
  by_cases hlow : i < 16
  · simp [hlow, hi]
  · simp [hlow, hi]

/-- The old control word is back, with the flags that were raised in between. -/
theorem restoredRound_savedRound {w : BitVec 32} (mxcsr : BitVec 32) (flags : BitVec 6)
    (hw : (w <<< sseRoundShift).setWidth 16 &&& 0x9fff#16 = 0#16) :
    restoredRound (savedRound mxcsr) (setRound w mxcsr ||| flags.setWidth 32) =
      mxcsr ||| flags.setWidth 32 := by
  unfold restoredRound savedRound setRound
  generalize (w <<< sseRoundShift).setWidth 16 = mode at hw
  -- bit by bit, with the masks known at each
  apply BitVec.eq_of_getLsbD_eq
  intro i hi
  obtain ⟨hset, hsave, hkeep, hnot, hflag⟩ := mask_bits ⟨i, hi⟩
  have hmode := congrArg (fun v => v.getLsbD i) hw
  dsimp only at hset hsave hkeep hnot hflag hmode
  rw [BitVec.getLsbD_and, BitVec.getLsbD_zero] at hmode
  simp only [BitVec.getLsbD_or, BitVec.getLsbD_and, BitVec.getLsbD_setWidth, hset, hsave, hkeep]
  by_cases hlow : i < 16
  · have hfar : ¬ i < 6 → flags.getLsbD i = false := fun h =>
      BitVec.getLsbD_of_ge flags i (Nat.le_of_not_lt h)
    simp only [if_pos hlow] at hnot ⊢
    rw [hnot]
    cases hbit : (0x9fff#16).getLsbD i with
    | false =>
        have hclear : flags.getLsbD i = false := hfar fun h => by
          rw [if_pos h, hbit] at hflag
          exact Bool.false_ne_true hflag
        simp [hclear]
    | true =>
        rw [hbit, Bool.and_true] at hmode
        simp [hmode]
  · have hhigh : flags.getLsbD i = false :=
      BitVec.getLsbD_of_ge flags i (by omega)
    simp [hlow, hhigh]

end Words

/-- The mode that a word for `saveAndSetRound` stands for. -/
def wordMode (w : BitVec 32) : Ieee.Mode := roundingControl (w <<< sseRoundShift)

/-- `RNE`, `RTZ`, `RDN` and `RUP`. -/
def staticMode (round : BitVec 32) : Option Ieee.Mode :=
  if round = 0#32 then some .nearest
  else if round = 1#32 then some .zero
  else if round = 2#32 then some .down
  else if round = 3#32 then some .up
  else none

section Modes

variable {flags : Flags} {round w : BitVec 32} {mode : Ieee.Mode}

/-- The words that `to_SSE_RoundMode` returns; an unsupported mode is the nearest one, if it does
not stop the translator. -/
theorem toSseRoundMode_words (hok : toSseRoundMode flags round = .ok w) :
    w = feToNearest ∨ w = feDownward ∨ w = feUpward ∨ w = feTowardZero := by
  unfold toSseRoundMode at hok
  split at hok
  · exact .inl (Except.ok.inj hok).symm
  split at hok
  · exact .inr (.inl (Except.ok.inj hok).symm)
  split at hok
  · exact .inr (.inr (.inl (Except.ok.inj hok).symm))
  split at hok
  · exact .inr (.inr (.inr (Except.ok.inj hok).symm))
  · unfold criticalNotYetImplemented at hok
    split at hok
    · exact .inl (Except.ok.inj hok).symm
    · exact absurd hok nofun

theorem word_masked (hok : toSseRoundMode flags round = .ok w) :
    (w <<< sseRoundShift).setWidth 16 &&& 0x9fff#16 = 0#16 := by
  rcases toSseRoundMode_words hok with rfl | rfl | rfl | rfl
  · decide
  · decide
  · decide
  · decide

/-- Flags do not change the mode that was set. -/
theorem roundingControl_setRound (w mxcsr : BitVec 32) (raised : BitVec 6) :
    roundingControl (setRound w mxcsr ||| raised.setWidth 32) = wordMode w := by
  have hcontrol : (setRound w mxcsr ||| raised.setWidth 32).extractLsb' 13 2 =
      (w <<< sseRoundShift).extractLsb' 13 2 := by
    unfold setRound
    apply BitVec.eq_of_getLsbD_eq
    intro i hi
    have hbits : i = 0 ∨ i = 1 := by omega
    rcases hbits with rfl | rfl
    · simp [sseRoundShift]
    · simp [sseRoundShift]
  unfold wordMode roundingControl
  rw [hcontrol]

theorem staticMode_ne_dyn (hmode : staticMode round = some mode) : round ≠ dyn := by
  rintro rfl
  exact absurd hmode nofun

/-- Exceptions are no part of the rounding control. -/
theorem roundingControl_raised (mxcsr : BitVec 32) (raised : BitVec 6) :
    roundingControl (mxcsr ||| raised.setWidth 32) = roundingControl mxcsr := by
  have hcontrol : (mxcsr ||| raised.setWidth 32).extractLsb' 13 2 = mxcsr.extractLsb' 13 2 := by
    apply BitVec.eq_of_getLsbD_eq
    intro i hi
    have hhigh : raised.getLsbD (13 + i) = false := BitVec.getLsbD_of_ge raised _ (by omega)
    simp [hhigh]
  unfold roundingControl
  rw [hcontrol]

theorem toSseRoundMode_static (flags : Flags) (hmode : staticMode round = some mode) :
    ∃ w, toSseRoundMode flags round = .ok w ∧ wordMode w = mode := by
  unfold staticMode at hmode
  split at hmode
  · rename_i hround
    obtain rfl := Option.some.inj hmode
    exact ⟨feToNearest, by rw [hround]; rfl, rfl⟩
  split at hmode
  · rename_i hround
    obtain rfl := Option.some.inj hmode
    exact ⟨feTowardZero, by rw [hround]; rfl, rfl⟩
  split at hmode
  · rename_i hround
    obtain rfl := Option.some.inj hmode
    exact ⟨feDownward, by rw [hround]; rfl, rfl⟩
  split at hmode
  · rename_i hround
    obtain rfl := Option.some.inj hmode
    exact ⟨feUpward, by rw [hround]; rfl, rfl⟩
  · exact absurd hmode nofun

end Modes

/-! ## The code of the helpers -/

/-- What `saveAndSetRound` emits behind the request for a register. -/
def saveCode (w : BitVec 32) (temp : FeReg) : List FpInstr :=
  [.sse (.stmxcsrm mxcsrSave), .sse (.mov32rm temp mxcsrSave), .sse (.and16mi mxcsrSave 0x6000#16),
    .sse (.and16ri temp 0x9fff#16), .sse (.or16ri temp ((w <<< sseRoundShift).setWidth 16)),
    .sse (.mov32mr mxcsrScratch temp), .sse (.ldmxcsrm mxcsrScratch)]

/-- What `restoreFpRound` emits behind the request for a register. -/
def restoreCode (temp : FeReg) : List FpInstr :=
  [.sse (.stmxcsrm mxcsrScratch), .sse (.mov32rm temp mxcsrScratch),
    .sse (.and16ri temp 0x9fff#16), .sse (.or16mr mxcsrSave temp), .sse (.ldmxcsrm mxcsrSave)]

section Code

variable {u : FpUnit} {flags : Flags} {round : BitVec 32} {h : FpState}

theorem saveAndSetRound_eq {w : BitVec 32} (hok : toSseRoundMode flags round = .ok w) :
    (liftM (saveAndSetRound flags round) : FpCode Unit) =
      (liftM invalidateOldest : FpCode FeReg) >>= fun temp => emitCode (saveCode w temp) := by
  unfold saveAndSetRound
  rw [hok]
  funext s
  simp [liftM, monadLift, MonadLift.monadLift, embed, bind, EmitLogic.Gen.andThen, liftGp, Gen.emit,
    saveCode, emitCode]

theorem restoreFpRound_eq :
    (liftM restoreFpRound : FpCode Unit) =
      (liftM invalidateOldest : FpCode FeReg) >>= fun temp => emitCode (restoreCode temp) := by
  unfold restoreFpRound
  funext s
  simp [liftM, monadLift, MonadLift.monadLift, embed, bind, EmitLogic.Gen.andThen, liftGp, Gen.emit,
    restoreCode, emitCode]

theorem saveCode_runs (w : BitVec 32) (temp : FeReg) :
    ∃ h', runFrom (FpInstr.step u) 0 (saveCode w temp) h = some h' ∧
      (∀ R, R ≠ temp → h'.reg R = h.reg R) ∧ h'.sse.host.cell = h.sse.host.cell ∧
      h'.sse.host.mem = h.sse.host.mem ∧ h'.sse.host.stack = h.sse.host.stack ∧
      h'.sse.xmm = h.sse.xmm ∧ (∀ x, h'.sse.cell (.fp x) = h.sse.cell (.fp x)) ∧
      h'.sse.mxcsr = setRound w h.sse.mxcsr ∧
      (h'.sse.cell mxcsrSave).setWidth 32 = savedRound h.sse.mxcsr := by
  refine ⟨_, rfl, fun R hR => ?_, rfl, rfl, rfl, rfl, fun x => ?_, ?_, ?_⟩
  · simp [SseState.setCell, hR]
  · simp [SseState.setCell, mxcsrSave, mxcsrScratch]
  · unfold setRound
    generalize (w <<< sseRoundShift).setWidth 16 = mode
    simp [SseState.setCell, mxcsrSave, mxcsrScratch, FpInstr.raised]
    exact setRound_low h.sse.mxcsr mode
  · simp [SseState.setCell, mxcsrSave, mxcsrScratch, FpInstr.raised]
    exact savedRound_low _ h.sse.mxcsr

theorem restoreCode_runs (temp : FeReg) :
    ∃ h', runFrom (FpInstr.step u) 0 (restoreCode temp) h = some h' ∧
      (∀ R, R ≠ temp → h'.reg R = h.reg R) ∧ h'.sse.host.cell = h.sse.host.cell ∧
      h'.sse.host.mem = h.sse.host.mem ∧ h'.sse.host.stack = h.sse.host.stack ∧
      h'.sse.xmm = h.sse.xmm ∧ (∀ x, h'.sse.cell (.fp x) = h.sse.cell (.fp x)) ∧
      h'.sse.mxcsr = restoredRound ((h.sse.cell mxcsrSave).setWidth 32) h.sse.mxcsr := by
  refine ⟨_, rfl, fun R hR => ?_, rfl, rfl, rfl, rfl, fun x => ?_, ?_⟩
  · simp [SseState.setCell, hR]
  · simp [SseState.setCell, mxcsrSave, mxcsrScratch]
  · simp [SseState.setCell, mxcsrSave, mxcsrScratch, FpInstr.raised]
    exact restoredRound_low (h.sse.cell (.fctrl 0)) h.sse.mxcsr

end Code

/-! ## The helpers -/

/-- What an instruction leaves alone besides the registers of the guest, its memory and the two
words. -/
structure Scoped (h h' : FpState) : Prop where
  outside : Outside h.sse.host h'.sse.host
  mxcsr : ∃ flags : BitVec 6, h'.sse.mxcsr = h.sse.mxcsr ||| flags.setWidth 32

/-- A helper has taken the oldest replacement, which it emptied first, and no other register. -/
structure TakesScratch (r r' : RegisterInfo) (h h' : FpState) : Prop where
  empty : r'.replacementContent r.oldest = invalidReg
  others : ∀ i, i ≠ r.oldest → r'.replacementContent i = r.replacementContent i
  reg : ∀ R, R ≠ getRegForIndex r.oldest → h'.reg R = h.reg R
  xmm : ∀ p, h'.xmm p = h.xmm p

section Helpers

variable {u : FpUnit} {flags : Flags} {round w : BitVec 32} {m : FpMapping} {g : GuestState}
  {f : Nat → BitVec 64} {r : RegisterInfo} {h h₁ h' : FpState} {e : Bool}
  {a : Option Abort}

theorem Touches.mode {R : FeReg → Prop} {X : XmmReg → Prop} (ht : Touches R X h h') :
    roundingControl h'.sse.mxcsr = roundingControl h.sse.mxcsr := by
  obtain ⟨raised, hraised⟩ := ht.mxcsr
  rw [hraised, roundingControl_raised]

/-- Code that only raises flags keeps the rounding mode. -/
theorem Elsewhere.mode (he : Elsewhere h h') :
    roundingControl h'.sse.mxcsr = roundingControl h.sse.mxcsr := by
  obtain ⟨raised, hraised⟩ := he.mxcsr
  rw [hraised, roundingControl_raised]

/-- Code that overwrites an empty register and moves no value of the guest. -/
theorem Agrees.overwrite {i : Fin 3} (ha : Agrees m x0 g f r h)
    (hempty : r.replacementContent i = invalidReg)
    (hreg : ∀ R, R ≠ getRegForIndex i → h'.reg R = h.reg R)
    (hcell : h'.sse.host.cell = h.sse.host.cell) (hmem : h'.sse.host.mem = h.sse.host.mem)
    (hstack : h'.sse.host.stack = h.sse.host.stack) (hxmm : h'.sse.xmm = h.sse.xmm)
    (hfp : ∀ x, h'.sse.cell (.fp x) = h.sse.cell (.fp x)) :
    Agrees m x0 g f r h' ∧ Outside h.sse.host h'.sse.host := by
  have hscratch : Scratches h.sse.host h'.sse.host (fun R => R = getRegForIndex i) :=
    ⟨hreg, hcell, hmem, hstack⟩
  refine ⟨⟨ha.rep.overwrite hscratch (fun j hj => ?_) (fun y mapped hmap hR => ?_), fun x => ?_⟩,
    ⟨hstack, hreg .sp fun hsp => getRegForIndex_ne_sp i hsp.symm, fun c _ => by rw [hcell]⟩⟩
  · rw [getRegForIndex_injective hj]
    exact hempty
  · exact gpMap_ne_replacement hmap i hR
  · rw [← ha.fp x]
    unfold fpValue
    cases m.fpMap x with
    | none => exact hfp x
    | some q => exact congrFun hxmm q

/-- `saveAndSetRound` sets the mode and keeps the old one. -/
theorem saveAndSetRound_agrees (ha : Agrees m x0 g f r h)
    (hok : toSseRoundMode flags round = .ok w) :
    ∃ r' h', FpRuns u (liftM (saveAndSetRound flags round)) ⟨⟨r, e⟩, a⟩ h () ⟨⟨r', e⟩, a⟩ h' ∧
      Agrees m x0 g f r' h' ∧ Outside h.sse.host h'.sse.host ∧ (∀ p, h'.xmm p = h.xmm p) ∧
      h'.sse.mxcsr = setRound w h.sse.mxcsr ∧
      (h'.sse.cell mxcsrSave).setWidth 32 = savedRound h.sse.mxcsr ∧ TakesScratch r r' h h' := by
  obtain ⟨r', h₁, hrun₁, ha₁, he₁, hxmm₁, hempty, hothers, hsame, hreg₁⟩ :=
    invalidateOldest_agrees (u := u) (e := e) (a := a) ha
  obtain ⟨h₂, hcode, hreg, hcell, hmem, hstack, hxmm, hfp, hmxcsr, hsave⟩ :=
    saveCode_runs (u := u) (h := h₁) w (getRegForIndex r.oldest)
  obtain ⟨ha₂, hout₂⟩ := ha₁.overwrite hempty hreg hcell hmem hstack hxmm hfp
  refine ⟨r', h₂, ?_, ha₂, he₁.outside.trans hout₂,
    fun p => (congrFun hxmm p).trans (hxmm₁ p), ?_, ?_, hempty, hothers,
    fun R hR => (hreg R hR).trans (congrFun hreg₁ R),
    fun p => (congrFun hxmm p).trans (hxmm₁ p)⟩
  · rw [saveAndSetRound_eq hok]
    exact .bind hrun₁ (runs_emitCode _ hcode)
  · rw [hmxcsr, hsame]
  · rw [hsave, hsame]

/-- `restoreFpRound` puts the control word together. -/
theorem restoreFpRound_agrees (ha : Agrees m x0 g f r h) :
    ∃ r' h', FpRuns u (liftM restoreFpRound) ⟨⟨r, e⟩, a⟩ h () ⟨⟨r', e⟩, a⟩ h' ∧
      Agrees m x0 g f r' h' ∧ Outside h.sse.host h'.sse.host ∧
      h'.sse.mxcsr = restoredRound ((h.sse.cell mxcsrSave).setWidth 32) h.sse.mxcsr ∧
      TakesScratch r r' h h' := by
  obtain ⟨r', h₁, hrun₁, ha₁, he₁, hxmm₁, hempty, hothers, hsame, hreg₁⟩ :=
    invalidateOldest_agrees (u := u) (e := e) (a := a) ha
  obtain ⟨h₂, hcode, hreg, hcell, hmem, hstack, hxmm, hfp, hmxcsr⟩ :=
    restoreCode_runs (u := u) (h := h₁) (getRegForIndex r.oldest)
  obtain ⟨ha₂, hout₂⟩ := ha₁.overwrite hempty hreg hcell hmem hstack hxmm hfp
  refine ⟨r', h₂, ?_, ha₂, he₁.outside.trans hout₂, ?_, hempty, hothers,
    fun R hR => (hreg R hR).trans (congrFun hreg₁ R),
    fun p => (congrFun hxmm p).trans (hxmm₁ p)⟩
  · rw [restoreFpRound_eq]
    exact .bind hrun₁ (runs_emitCode _ hcode)
  · rw [hmxcsr, hsame]
    exact congrArg (fun v : BitVec 64 => restoredRound (v.setWidth 32) h.sse.mxcsr)
      (he₁.fctrl 0)

/-- A rounding mode of the instruction's own is set before and reset after. -/
def bracket (flags : Flags) (round : BitVec 32) (body : FpCode Unit) : FpCode Unit := do
  saveAndSetRound flags round
  body
  restoreFpRound

/-- The frame that the emitters share. -/
def bracketIf (c : Prop) [Decidable c] (flags : Flags) (round : BitVec 32) (body : FpCode Unit) :
    FpCode Unit := do
  codeIf c (saveAndSetRound flags round)
  body
  codeIf c restoreFpRound

theorem bracketIf_pos {c : Prop} [Decidable c] (hc : c) (flags : Flags) (round : BitVec 32)
    (body : FpCode Unit) : bracketIf c flags round body = bracket flags round body := by
  simp only [bracketIf, bracket, codeIf, if_pos hc]

theorem bracketIf_neg {c : Prop} [Decidable c] (hc : ¬ c) (flags : Flags) (round : BitVec 32)
    (body : FpCode Unit) : bracketIf c flags round body = body := by
  simp only [bracketIf, codeIf, if_neg hc]
  funext s
  simp [bind, pure, EmitLogic.Gen.andThen, EmitLogic.Gen.ret]

/-- The mode inside the frame; one that stops the translator is not set. -/
def insideRound (c : Prop) [Decidable c] (flags : Flags) (round mxcsr : BitVec 32) : Ieee.Mode :=
  if c then
    match toSseRoundMode flags round with
    | .ok w => wordMode w
    | .error _ => roundingControl mxcsr
  else roundingControl mxcsr

/-- A body as the frame needs it: in the mode inside, it takes the guest to one of a kind. -/
def RunsInside (u : FpUnit) (m : FpMapping) (g : GuestState) (f : Nat → BitVec 64) (h : FpState)
    (e : Bool) (mode : Ieee.Mode) (body : FpCode Unit)
    (Q : GuestState → (Nat → BitVec 64) → Prop) : Prop :=
  ∀ r₁ h₁ a₁, Agrees m x0 g f r₁ h₁ → roundingControl h₁.sse.mxcsr = mode →
    (∀ p, h₁.xmm p = h.xmm p) → ∃ g' f' r₂ h₂,
      FpRuns u body ⟨⟨r₁, e⟩, a₁⟩ h₁ () ⟨⟨r₂, e⟩, a₁⟩ h₂ ∧ Agrees m x0 g' f' r₂ h₂ ∧
        Elsewhere h₁ h₂ ∧ Q g' f'

variable {body : FpCode Unit} {Q : GuestState → (Nat → BitVec 64) → Prop}

/-- The body runs in the mode of the instruction, and only flags are left of it in the control
word. -/
theorem bracket_agrees (ha : Agrees m x0 g f r h) (hok : toSseRoundMode flags round = .ok w)
    (hbody : RunsInside u m g f h e (wordMode w) body Q) :
    ∃ g' f' r' h', FpRuns u (bracket flags round body) ⟨⟨r, e⟩, a⟩ h () ⟨⟨r', e⟩, a⟩ h' ∧
      Agrees m x0 g' f' r' h' ∧ Scoped h h' ∧ Q g' f' := by
  obtain ⟨r₁, h₁, hrun₁, ha₁, hout₁, hxmm₁, hmxcsr₁, hsave₁, -⟩ :=
    saveAndSetRound_agrees (u := u) (e := e) (a := a) ha hok
  have hinside : roundingControl h₁.sse.mxcsr = wordMode w := by
    have hzero := roundingControl_setRound w h.sse.mxcsr 0#6
    rw [BitVec.setWidth_zero, BitVec.or_zero] at hzero
    rw [hmxcsr₁, hzero]
  obtain ⟨g', f', r₂, h₂, hrun₂, ha₂, he₂, hQ⟩ := hbody r₁ h₁ a ha₁ hinside hxmm₁
  obtain ⟨r₃, h₃, hrun₃, ha₃, hout₃, hmxcsr₃, -⟩ :=
    restoreFpRound_agrees (u := u) (e := e) (a := a) ha₂
  refine ⟨g', f', r₃, h₃, .bind hrun₁ (.bind hrun₂ hrun₃), ha₃,
    ⟨hout₁.trans (he₂.outside.trans hout₃), ?_⟩, hQ⟩
  obtain ⟨raised, hraised⟩ := he₂.mxcsr
  refine ⟨raised, ?_⟩
  -- the body has not touched the word
  have hword : (h₂.sse.cell mxcsrSave).setWidth 32 = savedRound h.sse.mxcsr :=
    (congrArg (BitVec.setWidth 32) (he₂.fctrl 0)).trans hsave₁
  rw [hmxcsr₃, hword, hraised, hmxcsr₁, restoredRound_savedRound _ _ (word_masked hok)]

/-- What happens to the guest does not depend on whether the mode is supported. -/
theorem bracketIf_agrees (c : Prop) [Decidable c] (ha : Agrees m x0 g f r h)
    (hbody : RunsInside u m g f h e (insideRound c flags round h.sse.mxcsr) body Q) :
    ∃ g' f' r' h' a', FpRuns u (bracketIf c flags round body) ⟨⟨r, e⟩, a⟩ h ()
        ⟨⟨r', e⟩, a'⟩ h' ∧
      Agrees m x0 g' f' r' h' ∧ Q g' f' := by
  unfold insideRound at hbody
  by_cases hc : c
  · rw [if_pos hc] at hbody
    rw [bracketIf_pos hc]
    cases hok : toSseRoundMode flags round with
    | ok w =>
        rw [hok] at hbody
        obtain ⟨g', f', r', h', hrun, ha', -, hQ⟩ := bracket_agrees (a := a) ha hok hbody
        exact ⟨g', f', r', h', a, hrun, ha', hQ⟩
    | error reason =>
        rw [hok] at hbody
        -- without a mode of the host nothing is saved, and the code runs in the mode it finds
        have hsave : FpRuns u (liftM (saveAndSetRound flags round)) ⟨⟨r, e⟩, a⟩ h ()
            ⟨⟨r, e⟩, some reason⟩ h := by
          unfold saveAndSetRound
          rw [hok]
          exact ⟨[], rfl, rfl⟩
        obtain ⟨g', f', r₂, h₂, hrun₂, ha₂, -, hQ⟩ :=
          hbody r h (some reason) ha rfl fun _ => rfl
        obtain ⟨r₃, h₃, hrun₃, ha₃, -⟩ :=
          restoreFpRound_agrees (u := u) (e := e) (a := some reason) ha₂
        exact ⟨g', f', r₃, h₃, some reason, .bind hsave (.bind hrun₂ hrun₃), ha₃, hQ⟩
  · rw [if_neg hc] at hbody
    obtain ⟨g', f', r', h', hrun, ha', -, hQ⟩ := hbody r h a ha rfl fun _ => rfl
    rw [bracketIf_neg hc]
    exact ⟨g', f', r', h', a, hrun, ha', hQ⟩

end Helpers

end RiaJit.Translate
