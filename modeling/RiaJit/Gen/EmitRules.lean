import RiaJit.Gen.Translate

/-!
# Properties of all emitters

A property of steps that holds of the primitive ones and is kept by sequencing holds of the
emitters of whole instructions.
-/

set_option autoImplicit false

namespace RiaJit.Translate

open Emit

/-- A property of steps that the primitive ones have and sequencing keeps. -/
structure Closed (env : Env) (K : (α : Type) → Emit α → Prop) : Prop where
  ret {α : Type} (a : α) : K α (pure a)
  bind {α β : Type} {x : Emit α} {k : α → Emit β} (hx : K α x) (hk : ∀ a, K β (k a)) :
    K β (x >>= k)
  get : K EmitState get
  lift {α : Type} (g : Gen α) : K α (lift g)
  lookupCacheEntry (a : RiscAddr) : K CacheLoc (lookupCacheEntry a)
  encJump (cond : Option X86.Cond) (jmpl : Bool) (target : BitVec 64) :
    K Unit (encJump env cond jmpl target)
  encDummy (cond : Option X86.Cond) (jmpl : Bool) : K Nat (encDummy env cond jmpl)
  replaceJump (slot : Nat) (cond : Option X86.Cond) (jmpl : Bool) (target : BitVec 64) :
    K Unit (replaceJump env slot cond jmpl target)
  replaceJumpHere (slot : Nat) (cond : Option X86.Cond) (jmpl : Bool) :
    K Unit (replaceJumpHere env slot cond jmpl)
  jalrStaticTarget (instr : RiscInstr) : K RiscAddr (jalrStaticTarget env instr)

namespace Closed

variable {env : Env} {K : (α : Type) → Emit α → Prop} (hK : Closed env K) (instr : RiscInstr)

theorem ite {α : Type} {c : Prop} [Decidable c] {x y : Emit α} (hx : K α x) (hy : K α y) :
    K α (if c then x else y) := by
  split
  · exact hx
  · exact hy

include hK

theorem onlyIf {c : Prop} [Decidable c] {x : Emit Unit} (hx : K Unit x) :
    K Unit (Emit.onlyIf c x) :=
  Closed.ite hx (hK.ret ())

theorem lookupFinished (target : RiscAddr) : K _ (Translate.lookupFinished env target) :=
  Closed.ite (hK.bind (hK.lookupCacheEntry target) fun _ => hK.ret _) (hK.ret none)

theorem rsEmitPush (saveRax : Bool) : K Unit (Translate.rsEmitPush instr saveRax) :=
  hK.bind (hK.lift _) fun _ => hK.bind (hK.lookupCacheEntry _) fun _ => hK.onlyIf (hK.lift _)

theorem rsEmitPopRAX (jumpOrPush : Bool) : K Unit (Translate.rsEmitPopRAX env jumpOrPush) := by
  refine hK.bind (hK.lift _) fun _ => hK.bind (hK.lift _) fun _ =>
    hK.bind (hK.encDummy _ _) fun _ => hK.bind (hK.lift _) fun _ => Closed.ite ?_ ?_
  · exact hK.bind (hK.lift _) fun _ => hK.replaceJumpHere _ _ _
  · exact hK.bind (hK.lift _) fun _ => hK.bind (hK.encDummy _ _) fun _ =>
      hK.bind (hK.replaceJumpHere _ _ _) fun _ => hK.bind (hK.lift _) fun _ =>
        hK.bind (hK.lift _) fun _ => hK.replaceJumpHere _ _ _

theorem rsJumpStack : K Unit (Translate.rsJumpStack env) :=
  hK.bind (hK.lift _) fun _ => hK.bind (hK.lift _) fun _ => hK.bind (hK.lift _) fun _ =>
    hK.bind (hK.encDummy _ _) fun _ => hK.bind (hK.lift _) fun _ => hK.replaceJumpHere _ _ _

theorem jalExit (target : RiscAddr) (cacheLoc : Option CacheLoc) :
    K Unit (Translate.jalExit env target cacheLoc) := by
  cases cacheLoc with
  | some loc => exact hK.encJump _ _ _
  | none => exact hK.lift _

theorem translateJAL : K Unit (Translate.translateJAL env instr) :=
  hK.bind (hK.lift _) fun _ => hK.bind (hK.onlyIf (hK.rsEmitPush instr _)) fun _ =>
    hK.bind (hK.lift _) fun _ => hK.bind (hK.lift _) fun _ =>
      hK.bind (hK.lookupFinished _) fun _ => hK.jalExit _ _

theorem jalrReturnStack : K Unit (Translate.jalrReturnStack env instr) := by
  refine Closed.ite (Closed.ite (Closed.ite (hK.rsEmitPush instr _) ?_) (hK.rsEmitPush instr _))
    (Closed.ite (hK.rsEmitPopRAX _) (hK.ret ()))
  exact hK.bind (hK.rsEmitPopRAX _) fun _ => hK.bind (hK.rsEmitPush instr _) fun _ =>
    hK.rsJumpStack

theorem jalrStep4 : K Unit (Translate.jalrStep4 env instr) := by
  refine Closed.ite (hK.bind (hK.jalrStaticTarget instr) fun target =>
    hK.bind (hK.lookupFinished target) fun cacheLoc => ?_) (hK.lift _)
  cases cacheLoc with
  | some loc => exact hK.lift _
  | none => exact hK.lift _

theorem translateJALR : K Unit (Translate.translateJALR env instr) :=
  hK.bind (hK.lift _) fun _ => hK.bind (hK.lift _) fun _ => hK.bind (hK.lift _) fun _ =>
    hK.bind (hK.lift _) fun _ => hK.bind (hK.onlyIf (hK.jalrReturnStack instr)) fun _ =>
      hK.bind (hK.jalrStep4 instr) fun _ => hK.lift _

theorem takenExit (target : RiscAddr) (cacheLoc : Option CacheLoc) :
    K Unit (Translate.takenExit env target cacheLoc) := by
  cases cacheLoc with
  | some loc => exact hK.encJump _ _ _
  | none => exact hK.lift _

theorem notTakenExit (target : RiscAddr) (noJmpLoc : Nat) (jmpMnem : X86.Cond)
    (cacheLoc : Option CacheLoc) :
    K Unit (Translate.notTakenExit env target noJmpLoc jmpMnem cacheLoc) := by
  cases cacheLoc with
  | some loc => exact hK.replaceJump _ _ _ _
  | none =>
      exact hK.bind (hK.replaceJumpHere _ _ _) fun _ => hK.bind hK.get fun _ =>
        hK.bind (hK.lift _) fun _ => hK.lift _

theorem translateBranch (jmpMnem : X86.Cond) :
    K Unit (Translate.translateBranch env instr jmpMnem) :=
  hK.bind (hK.lift _) fun _ => hK.bind (hK.encDummy _ _) fun _ =>
    hK.bind (hK.lookupFinished _) fun _ => hK.bind (hK.takenExit _ _) fun _ =>
      hK.bind (hK.encDummy _ _) fun _ => hK.bind (hK.lookupFinished _) fun _ =>
        hK.bind (hK.notTakenExit _ _ _ _) fun _ => hK.replaceJumpHere _ _ _

/-- Only `EBREAK` and `FENCE.I` have an emitter that may end the run. -/
theorem dispatchInstr
    (hcritical : instr.mnem = .ebreak ∨ instr.mnem = .fenceI → K Unit (critical env)) :
    K Unit (Translate.dispatchInstr env instr) := by
  unfold Translate.dispatchInstr
  split
  · exact hK.lift _
  · split
    · exact hK.lift _
    · exact hK.translateJAL instr
    · exact hK.translateJALR instr
    · exact hK.translateBranch instr _
    · exact hK.translateBranch instr _
    · exact hK.translateBranch instr _
    · exact hK.translateBranch instr _
    · exact hK.translateBranch instr _
    · exact hK.translateBranch instr _
    · exact hK.lift _
    · exact hK.lift _
    · exact hK.ret ()
    · exact hK.ret ()
    · rename_i hmnem
      exact hcritical (.inl hmnem)
    · rename_i hmnem
      exact hcritical (.inr hmnem)
    · exact hK.lift _

theorem translateRiscInstr
    (hcritical : instr.mnem = .ebreak ∨ instr.mnem = .fenceI → K Unit (critical env)) :
    K Unit (Translate.translateRiscInstr env instr) :=
  hK.bind (hK.dispatchInstr instr hcritical) fun _ => hK.lift _

end Closed

end RiaJit.Translate
