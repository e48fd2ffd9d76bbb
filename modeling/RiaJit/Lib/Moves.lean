import RiaJit.Lib.EmitLogic
import Mathlib.Logic.Function.Basic

/-!
# Lists of moves

Straight code that copies values from one store of a machine to another, each to a place of its
own. The stores are apart, so no move changes what a later one copies, and what a list of moves
does can be told without the order of its moves.
-/

set_option autoImplicit false

namespace Moves

open EmitLogic

variable {S ι δ σ V : Type} [DecidableEq δ]

/-- The destinations after moves, each from the second place of a pair to the first. -/
def moveAll (src : σ → V) : List (δ × σ) → (δ → V) → (δ → V)
  | [], dst => dst
  | p :: ps, dst => moveAll src ps (Function.update dst p.1 (src p.2))

section

variable {src : σ → V} {ps : List (δ × σ)} {dst : δ → V} {d : δ} {s : σ}

/-- A place that no move goes to. -/
theorem moveAll_other (hd : d ∉ ps.map Prod.fst) : moveAll src ps dst d = dst d := by
  induction ps generalizing dst with
  | nil => rfl
  | cons p ps ih =>
      rw [List.map_cons, List.mem_cons, not_or] at hd
      show moveAll src ps (Function.update dst p.1 (src p.2)) d = dst d
      rw [ih hd.2, Function.update_of_ne hd.1]

/-- A place that one move goes to. -/
theorem moveAll_moved (hnodup : (ps.map Prod.fst).Nodup) (hmem : (d, s) ∈ ps) :
    moveAll src ps dst d = src s := by
  induction ps generalizing dst with
  | nil => exact absurd hmem List.not_mem_nil
  | cons p ps ih =>
      rw [List.map_cons, List.nodup_cons] at hnodup
      show moveAll src ps (Function.update dst p.1 (src p.2)) d = src s
      rcases List.mem_cons.1 hmem with heq | hmem
      · subst heq
        rw [moveAll_other hnodup.1, Function.update_self]
      · exact ih hnodup.2 hmem

end

/-- The instructions `mk` of a machine copy from the store `src` to the store that `get` reads and
`set` replaces. -/
structure Move (exec : ι → S → Option S) (mk : δ × σ → ι) (src : S → σ → V) (get : S → δ → V)
    (set : S → (δ → V) → S) : Prop where
  exec : ∀ p h, exec (mk p) h = some (set h (Function.update (get h) p.1 (src h p.2)))
  get_set : ∀ h f, get (set h f) = f
  set_set : ∀ h f f', set (set h f) f' = set h f'
  set_get : ∀ h, set h (get h) = h
  src_set : ∀ h f, src (set h f) = src h

/-- A list of moves changes the destinations only, and reads the sources as they were before. -/
theorem Move.runs {exec : ι → S → Option S} {mk : δ × σ → ι} {src : S → σ → V} {get : S → δ → V}
    {set : S → (δ → V) → S} (hm : Move exec mk src get set) (ps : List (δ × σ)) (h : S) :
    runCode exec (ps.map mk) h = some (set h (moveAll (src h) ps (get h))) := by
  induction ps generalizing h with
  | nil => exact congrArg some (hm.set_get h).symm
  | cons p ps ih =>
      show (exec (mk p) h).bind (runCode exec (ps.map mk)) = _
      rw [hm.exec]
      refine (ih _).trans ?_
      rw [hm.set_set, hm.get_set, hm.src_set]
      rfl

end Moves
