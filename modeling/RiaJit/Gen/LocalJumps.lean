import RiaJit.Gen.Emit
import RiaJit.Lib.StateExcept
import RiaJit.X86.LocalJumps

/-!
# Emission of local jumps

The emitters encode a forward jump twice: as a dummy to its own address, and in place
once its target is known. Where the code in between is short both encodings have the
same length, and what is emitted is a choice between two pieces of code.
-/

set_option autoImplicit false

namespace RiaJit.Translate

open EmitLogic X86 StateExcept

section LocalJumps

variable {env : Env} {s : EmitState}

/-- The emission appends `is` to the code and leaves `gen`. -/
def Appends {α : Type} (g : Emit α) (s : EmitState) (a : α) (is : List FeInstr) (gen : GenState) :
    Prop :=
  g s = .ok (a, { s with code := s.code ++ is, gen := gen })

/-- The state after an emission. -/
def EmitState.extend (s : EmitState) (is : List FeInstr) (gen : GenState) : EmitState :=
  { s with code := s.code ++ is, gen := gen }

theorem Appends.bind {α β : Type} {g : Emit α} {k : α → Emit β} {a : α} {b : β}
    {is js : List FeInstr} {gen gen' : GenState} (hg : Appends g s a is gen)
    (hk : Appends (k a) (s.extend is gen) b js gen') :
    Appends (g >>= k) s b (is ++ js) gen' := by
  refine (bind_of_ok hg).trans (hk.trans ?_)
  unfold EmitState.extend
  dsimp only
  rw [List.append_assoc]

theorem appends_lift {α : Type} {g : Gen α} {a : α} {is : List FeInstr} {gen : GenState}
    (hg : g s.gen = (a, is, gen)) : Appends (Emit.lift g) s a is gen := by
  show Except.ok ((g s.gen).1, _) = _
  rw [hg]

theorem current_extend (is : List FeInstr) (gen : GenState) :
    Emit.current env (s.extend is gen) = env.enc.after (Emit.current env s) is :=
  Encoder.after_append ..

/-! ## Short forms -/

theorem fitsInt8_of_lt {n : Nat} (h : n < 128) :
    FeInstr.fitsInt8 (BitVec.ofNat 64 n) = true := by
  have hmsb : ((BitVec.ofNat 64 n).setWidth 8).msb = false := by
    rw [BitVec.msb_eq_decide, BitVec.toNat_setWidth, BitVec.toNat_ofNat]
    exact decide_eq_false (by omega)
  refine beq_iff_eq.2 ?_
  rw [BitVec.signExtend_eq_setWidth_of_msb_false hmsb]
  apply BitVec.eq_of_toNat_eq
  rw [BitVec.toNat_setWidth, BitVec.toNat_setWidth, BitVec.toNat_ofNat]
  omega

theorem size_shortJump (enc : Encoder) (cond : Option Cond) (target : BitVec 64) :
    enc.size (.jump cond false target) = 2 := by
  cases cond with
  | none => exact size_shortJmp ..
  | some holds => exact size_shortJcc ..

theorem jumpForm_short {enc : Encoder} {current target : BitVec 64} {cond : Option Cond}
    (h : FeInstr.fitsInt8 (target - (current + 2#64)) = true) :
    enc.jumpForm current cond false target = some (.jump cond false target) := by
  unfold Encoder.jumpForm
  dsimp only
  rw [if_pos]
  refine ⟨Bool.false_ne_true, ?_⟩
  rw [size_shortJump]
  exact h

/-- A dummy jump is short. -/
theorem encDummy_short (cond : Option Cond) :
    Appends (Emit.encDummy env cond false) s s.code.length
      [.jump cond false (Emit.current env s)] s.gen := by
  have hfits : FeInstr.fitsInt8 (Emit.current env s - (Emit.current env s + 2#64)) = true := by
    have hneg : Emit.current env s - (Emit.current env s + 2#64) = -2#64 := by bv_omega
    rw [hneg]
    rfl
  have hjump : Emit.encJump env cond false (Emit.current env s) s =
      .ok ((), { s with code := s.code ++ [.jump cond false (Emit.current env s)] }) := by
    unfold Emit.encJump
    rw [jumpForm_short hfits]
  show (Emit.encJump env cond false (Emit.current env s) s).bind _ = _
  rw [hjump]
  rfl

/-- A short jump over little code is encoded again in place. -/
theorem replaceJumpHere_short {cond : Option Cond} {pre rest : List FeInstr} {dummy : BitVec 64}
    (hcode : s.code = pre ++ .jump cond false dummy :: rest) (hrest : env.enc.codeSize rest < 128) :
    Emit.replaceJumpHere env pre.length cond false s = .ok ((), { s with
      code := pre ++ .jump cond false (Emit.current env s) :: rest }) := by
  have htake : s.code.take pre.length = pre := by
    rw [hcode]
    exact List.take_left ..
  have hdisplacement : Emit.current env s - (env.enc.after s.start pre + 2#64) =
      BitVec.ofNat 64 (env.enc.codeSize rest) := by
    unfold Emit.current
    rw [hcode, Encoder.after_append, Encoder.after_cons, size_shortJump]
    unfold Encoder.after
    bv_omega
  have hform : env.enc.jumpForm (Emit.addressOf env s pre.length) cond false (Emit.current env s) =
      some (.jump cond false (Emit.current env s)) := by
    refine jumpForm_short ?_
    unfold Emit.addressOf
    rw [htake, hdisplacement]
    exact fitsInt8_of_lt hrest
  have hslot : s.code[pre.length]? = some (.jump cond false dummy) := by
    rw [hcode]
    simp
  unfold Emit.replaceJumpHere Emit.replaceJump Emit.overwrite
  rw [hform]
  dsimp only
  rw [hslot, if_pos]
  · rw [hcode]
    simp
  · rw [Option.map_some, size_shortJump, size_shortJump]

/-! ## Choices -/

variable {g₁ g₂ : Gen Unit} {is js : List FeInstr} {gen gen₁ gen₂ : GenState} {cond : Cond}

/-- A conditional jump over one piece and an unconditional one over the other. -/
theorem appends_choice (hg₁ : g₁ s.gen = ((), is, gen₁)) (hg₂ : g₂ gen₁ = ((), js, gen₂))
    (his : env.enc.codeSize is < 126) (hjs : env.enc.codeSize js < 128) :
    Appends (do
        let overFirst ← Emit.encDummy env (some cond) false
        Emit.lift g₁
        let overSecond ← Emit.encDummy env none false
        Emit.replaceJumpHere env overFirst (some cond) false
        Emit.lift g₂
        Emit.replaceJumpHere env overSecond none false)
      s () (choice env.enc (Emit.current env s) cond is js) gen₂ := by
  let dummy := FeInstr.jump (some cond) false (Emit.current env s)
  let s₁ : EmitState := { s with code := s.code ++ [dummy] }
  let s₂ : EmitState := { s₁ with code := s₁.code ++ is, gen := gen₁ }
  let dummy' := FeInstr.jump none false (Emit.current env s₂)
  let s₃ : EmitState := { s₂ with code := s₂.code ++ [dummy'] }
  let other := Emit.current env s₃
  let first := FeInstr.jump (some cond) false other :: is
  let s₄ : EmitState := { s₃ with code := s.code ++ first ++ [dummy'] }
  let s₅ : EmitState := { s₄ with code := s₄.code ++ js, gen := gen₂ }
  have h₁ : Emit.encDummy env (some cond) false s = .ok (s.code.length, s₁) := encDummy_short _
  have h₂ : Emit.lift g₁ s₁ = .ok ((), s₂) := appends_lift hg₁
  have h₃ : Emit.encDummy env none false s₂ = .ok (s₂.code.length, s₃) := encDummy_short _
  have h₄ : Emit.replaceJumpHere env s.code.length (some cond) false s₃ = .ok ((), s₄) := by
    have hcode : s₃.code = s.code ++ .jump (some cond) false (Emit.current env s) ::
        (is ++ [dummy']) := by
      show s.code ++ [dummy] ++ is ++ [dummy'] = _
      rw [List.append_assoc, List.append_assoc]
      rfl
    have hsize : env.enc.codeSize (is ++ [dummy']) < 128 := by
      rw [Encoder.codeSize_append, Encoder.codeSize_cons, Encoder.codeSize_nil, size_shortJump]
      omega
    rw [replaceJumpHere_short hcode hsize]
    show _ = Except.ok ((), { s₃ with code := s.code ++ first ++ [dummy'] })
    rw [List.append_assoc]
    rfl
  have h₅ : Emit.lift g₂ s₄ = .ok ((), s₅) := appends_lift hg₂
  have h₆ : Emit.replaceJumpHere env s₂.code.length none false s₅ = .ok ((), { s₅ with
      code := (s.code ++ first) ++ .jump none false (Emit.current env s₅) :: js }) := by
    have hcode : s₅.code = (s.code ++ first) ++ .jump none false (Emit.current env s₂) :: js := by
      show s.code ++ first ++ [dummy'] ++ js = _
      rw [List.append_assoc]
      rfl
    have hlength : s₂.code.length = (s.code ++ first).length := by
      show (s.code ++ [dummy] ++ is).length = _
      rw [List.append_assoc, List.length_append, List.length_append, List.length_append,
        List.length_singleton, List.length_cons, Nat.add_comm 1]
    rw [hlength]
    exact replaceJumpHere_short hcode hjs
  -- the second piece starts behind the second jump, and the choice ends behind the second piece
  have hother : other = Emit.current env s + BitVec.ofNat 64 (2 + env.enc.codeSize is + 2) := by
    show env.enc.after s.start (s.code ++ [dummy] ++ is ++ [dummy']) = _
    rw [List.append_assoc, List.append_assoc, Encoder.after_append]
    exact choice_other is _ _
  have hend : Emit.current env s₅ = env.enc.after other js := by
    show env.enc.after s.start (s.code ++ first ++ [dummy'] ++ js) = _
    rw [Encoder.after_append]
    congr 1
    rw [hother, List.append_assoc, Encoder.after_append]
    exact choice_other is _ _
  refine (bind_of_ok h₁).trans ((bind_of_ok h₂).trans ((bind_of_ok h₃).trans
    ((bind_of_ok h₄).trans ((bind_of_ok h₅).trans (h₆.trans ?_)))))
  rw [hend, List.append_assoc]
  unfold choice
  dsimp only
  rw [← hother]
  rfl

/-- A conditional jump over one piece. -/
theorem appends_skip (hg : g₁ s.gen = ((), is, gen)) (his : env.enc.codeSize is < 128) :
    Appends (do
        let jump ← Emit.encDummy env (some cond) false
        Emit.lift g₁
        Emit.replaceJumpHere env jump (some cond) false)
      s () (skip env.enc (Emit.current env s) cond is) gen := by
  let dummy := FeInstr.jump (some cond) false (Emit.current env s)
  let s₁ : EmitState := { s with code := s.code ++ [dummy] }
  let s₂ : EmitState := { s₁ with code := s₁.code ++ is, gen := gen }
  have h₁ : Emit.encDummy env (some cond) false s = .ok (s.code.length, s₁) := encDummy_short _
  have h₂ : Emit.lift g₁ s₁ = .ok ((), s₂) := appends_lift hg
  have hcode : s₂.code = s.code ++ .jump (some cond) false (Emit.current env s) :: is := by
    show s.code ++ [dummy] ++ is = _
    rw [List.append_assoc]
    rfl
  have hend : Emit.current env s₂ =
      Emit.current env s + BitVec.ofNat 64 (2 + env.enc.codeSize is) := by
    unfold Emit.current
    rw [hcode, Encoder.after_append]
    unfold Encoder.after
    rw [Encoder.codeSize_cons, size_shortJump]
  refine (bind_of_ok h₁).trans ((bind_of_ok h₂).trans ((replaceJumpHere_short hcode his).trans ?_))
  rw [hend]
  rfl

end LocalJumps

end RiaJit.Translate
