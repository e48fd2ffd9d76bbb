import RiaJit.Gen.Exits
import RiaJit.Lib.Moves

/-!
# Context switches

The two routines that `init_map_context` generates for a binary without floating point.
`save_context` stores the mapped registers of the guest and brings back the registers that a C
function must keep, `load_execute_save_context` does the reverse and calls a block or returns.
-/

set_option autoImplicit false

namespace RiaJit.Translate

open EmitLogic X86 Moves

/-! ## The routines -/

/-- The loop over `gp_mapped`, from `x0` to `pc`. -/
def mappedGp : List (Nat × FeReg) :=
  (List.range 33).filterMap fun i => (gpMap i).map fun mapped => (i, mapped)

/-- `SWAP_BX` to `SWAP_R15`, with the registers they are for. -/
def swapSlots : List (FeReg × Nat) :=
  [(.bx, 0), (.bp, 1), (.r12, 2), (.r13, 3), (.r14, 4), (.r15, 5)]

/-- The code of `save_context`, up to its return. -/
def saveContext : List FeInstr :=
  (mappedGp.map fun p => .mov64mrCell (.gp p.1) p.2) ++
    swapSlots.map fun p => .mov64rmCell p.1 (.swap p.2)

/-- The code of `load_execute_save_context`, up to its `JZ`. -/
def loadContext : List FeInstr :=
  (swapSlots.map fun p => .mov64mrCell (.swap p.2) p.1) ++
    [.movrr .s64 .ax .di, .movrr .s64 .dx .si] ++
    (mappedGp.map fun p => .mov64rmCell p.2 (.gp p.1)) ++ [.test32rr .dx .dx]

/-! ## Moves between registers and variables -/

/-- Stores of registers to variables, by the pairs of a variable and its register. -/
theorem store_move : Move FeInstr.exec (fun p : Cell × FeReg => .mov64mrCell p.1 p.2)
    (fun h => h.reg) (fun h => h.cell) fun h cell => { h with cell := cell } where
  exec := fun _ _ => rfl
  get_set := fun _ _ => rfl
  set_set := fun _ _ _ => rfl
  set_get := fun _ => rfl
  src_set := fun _ _ => rfl

/-- Loads of registers from variables. -/
theorem load_move : Move FeInstr.exec (fun p : FeReg × Cell => .mov64rmCell p.1 p.2)
    (fun h => h.cell) (fun h => h.reg) fun h reg => { h with reg := reg } where
  exec := fun _ _ => rfl
  get_set := fun _ _ => rfl
  set_set := fun _ _ _ => rfl
  set_get := fun _ => rfl
  src_set := fun _ _ => rfl

/-- The stores of the mapped registers to the register file. -/
def fileStores : List (Cell × FeReg) := mappedGp.map fun p => (.gp p.1, p.2)

/-- The loads of the mapped registers from the register file. -/
def fileLoads : List (FeReg × Cell) := mappedGp.map fun p => (p.2, .gp p.1)

/-- The stores to the swap file. -/
def swapStores : List (Cell × FeReg) := swapSlots.map fun p => (.swap p.2, p.1)

/-- The loads from the swap file. -/
def swapLoads : List (FeReg × Cell) := swapSlots.map fun p => (p.1, .swap p.2)

theorem mem_mappedGp {y : Nat} {mapped : FeReg} :
    (y, mapped) ∈ mappedGp ↔ gpMap y = some mapped := by
  unfold mappedGp
  simp only [List.mem_filterMap, List.mem_range, Option.map_eq_some_iff, Prod.mk.injEq]
  constructor
  · rintro ⟨i, -, R, hR, rfl, rfl⟩
    exact hR
  · intro hmap
    refine ⟨y, ?_, mapped, hmap, rfl, rfl⟩
    by_contra hlt
    have hnone : gpMap y = none := by
      unfold gpMap
      split
      case h_13 => rfl
      all_goals omega
    rw [hnone] at hmap
    cases hmap

theorem fileStores_nodup : (fileStores.map Prod.fst).Nodup := by decide

theorem fileLoads_nodup : (fileLoads.map Prod.fst).Nodup := by decide

theorem swapStores_nodup : (swapStores.map Prod.fst).Nodup := by decide

theorem swapLoads_nodup : (swapLoads.map Prod.fst).Nodup := by decide

/-- The registers that are kept for C code do not lie in the scratch slot. -/
theorem swapSlots_ne_scratch {R : FeReg} {slot : Nat} (hslot : (R, slot) ∈ swapSlots) :
    Cell.swap slot ≠ swapScratch := by
  have hall : ∀ p ∈ swapSlots, Cell.swap p.2 ≠ swapScratch := by decide
  exact hall _ hslot

/-! ## The register file -/

/-- All registers of the guest are in the register file, as C code expects them. -/
structure InFile (g : GuestState) (h : HostState) : Prop where
  regs : ∀ y, y ≠ x0 → y < 32 → h.cell (.gp y) = g.reg y
  mem : h.mem = g.mem

/-- The registers that a C function keeps, besides the stack pointer. -/
def calleeSaved : List FeReg := swapSlots.map Prod.fst

/-- The swap file holds the registers that the caller of a block expects to be kept. -/
def Swapped (saved : FeReg → BitVec 64) (h : HostState) : Prop :=
  ∀ R slot, (R, slot) ∈ swapSlots → h.cell (.swap slot) = saved R

section

variable {g : GuestState} {h : HostState}

/-- What `save_context` does. -/
structure Saved (g : GuestState) (h h' : HostState) : Prop where
  file : InFile g h'
  restored : ∀ R slot, (R, slot) ∈ swapSlots → h'.reg R = h.cell (.swap slot)
  kept : ∀ R, R ∉ calleeSaved → h'.reg R = h.reg R
  cell : ∀ c, (∀ y, y < 32 → c ≠ .gp y) → h'.cell c = h.cell c
  zero : h'.cell (.gp x0) = h.cell (.gp x0)
  stack : h'.stack = h.stack

theorem gpMap_pc {y : Nat} {mapped : FeReg} (hmap : gpMap y = some mapped) : y < 32 := by
  unfold gpMap at hmap
  split at hmap
  case h_13 => cases hmap
  all_goals omega

/-- A variable that is no register of the guest is not stored to. -/
theorem fileStores_other {c : Cell} (hc : ∀ y, y < 32 → c ≠ .gp y) :
    c ∉ fileStores.map Prod.fst := by
  intro hmem
  obtain ⟨p, hp, rfl⟩ := List.mem_map.1 hmem
  obtain ⟨q, hq, rfl⟩ := List.mem_map.1 hp
  exact hc q.1 (gpMap_pc (mem_mappedGp.1 hq)) rfl

theorem fileStores_unmapped {y : Nat} (hmap : gpMap y = none) :
    Cell.gp y ∉ fileStores.map Prod.fst := by
  intro hmem
  obtain ⟨p, hp, heq⟩ := List.mem_map.1 hmem
  obtain ⟨q, hq, rfl⟩ := List.mem_map.1 hp
  obtain rfl : q.1 = y := Cell.gp.inj heq
  rw [mem_mappedGp.1 hq] at hmap
  cases hmap

theorem saveContext_runs (hb : AtBoundary g h) :
    ∃ h', runCode FeInstr.exec saveContext h = some h' ∧ Saved g h h' := by
  let h₁ : HostState := { h with cell := moveAll h.reg fileStores h.cell }
  let h₂ : HostState := { h₁ with reg := moveAll h₁.cell swapLoads h₁.reg }
  have hstores : runCode FeInstr.exec _ h = some h₁ := store_move.runs fileStores h
  have hloads : runCode FeInstr.exec _ h₁ = some h₂ := load_move.runs swapLoads h₁
  refine ⟨h₂, ?_, ⟨fun y hy hlt => ?_, hb.mem⟩, fun R slot hmem => ?_, fun R hR => ?_,
    fun c hc => ?_, ?_, rfl⟩
  · have hsave : saveContext = (fileStores.map fun p => .mov64mrCell p.1 p.2) ++
        swapLoads.map fun p => .mov64rmCell p.1 p.2 := by
      unfold saveContext fileStores swapLoads
      rw [List.map_map, List.map_map]
      rfl
    rw [hsave, runCode_append, hstores]
    exact hloads
  · -- a mapped register was stored, another one was in its slot already
    rw [← hb.regs y hy hlt]
    cases hmap : gpMap y with
    | some mapped =>
        exact moveAll_moved fileStores_nodup
          (List.mem_map.2 ⟨(y, mapped), mem_mappedGp.2 hmap, rfl⟩)
    | none => exact moveAll_other (fileStores_unmapped hmap)
  · refine (moveAll_moved swapLoads_nodup (List.mem_map.2 ⟨(R, slot), hmem, rfl⟩)).trans ?_
    exact moveAll_other (fileStores_other fun _ _ => by simp)
  · refine moveAll_other fun hmem => hR ?_
    obtain ⟨p, hp, rfl⟩ := List.mem_map.1 hmem
    obtain ⟨q, hq, rfl⟩ := List.mem_map.1 hp
    exact List.mem_map.2 ⟨q, hq, rfl⟩
  · exact moveAll_other (fileStores_other hc)
  · exact moveAll_other (fileStores_unmapped rfl)

/-- What `load_execute_save_context` does up to its `JZ`. -/
structure LoadedContext (g : GuestState) (h h' : HostState) : Prop where
  boundary : AtBoundary g h'
  swapped : Swapped h.reg h'
  block : h'.reg .ax = h.reg .di
  execute : h'.flags = some (testFlags ((h.reg .si).setWidth 32) ((h.reg .si).setWidth 32))
  sp : h'.reg .sp = h.reg .sp
  cell : ∀ c, (∀ slot, c ≠ .swap slot) → h'.cell c = h.cell c
  stack : h'.stack = h.stack

theorem swapStores_other {c : Cell} (hc : ∀ slot, c ≠ .swap slot) :
    c ∉ swapStores.map Prod.fst := by
  intro hmem
  obtain ⟨p, hp, rfl⟩ := List.mem_map.1 hmem
  obtain ⟨q, -, rfl⟩ := List.mem_map.1 hp
  exact hc q.2 rfl

/-- `AX`, `DX` and the stack pointer are not mapped. -/
theorem fileLoads_other {R : FeReg} (hR : ∀ y, gpMap y ≠ some R) :
    R ∉ fileLoads.map Prod.fst := by
  intro hmem
  obtain ⟨p, hp, rfl⟩ := List.mem_map.1 hmem
  obtain ⟨q, hq, rfl⟩ := List.mem_map.1 hp
  exact hR q.1 (mem_mappedGp.1 hq)

theorem loadContext_runs (hfile : InFile g h) :
    ∃ h', runCode FeInstr.exec loadContext h = some h' ∧ LoadedContext g h h' := by
  let h₁ : HostState := { h with cell := moveAll h.reg swapStores h.cell }
  let h₂ := (h₁.setReg .ax (h.reg .di)).setReg .dx (h.reg .si)
  let h₃ : HostState := { h₂ with reg := moveAll h₂.cell fileLoads h₂.reg }
  have hcell : ∀ c, (∀ slot, c ≠ .swap slot) → h₁.cell c = h.cell c := fun c hc =>
    moveAll_other (swapStores_other hc)
  have hax : h₂.reg .ax = h.reg .di :=
    (HostState.reg_setReg_of_ne _ (by simp) _).trans (h₁.reg_setReg_self _ _)
  -- no mapped register lies in a replacement register, so the loads spare the two arguments
  have hdx : h₃.reg .dx = h.reg .si := by
    refine Eq.trans (b := h₂.reg .dx) (moveAll_other (fileLoads_other fun y hy => ?_))
      (HostState.reg_setReg_self _ _ _)
    exact gpMap_ne_replacement hy 1 rfl
  have hblock : h₃.reg .ax = h.reg .di :=
    Eq.trans (b := h₂.reg .ax)
      (moveAll_other (fileLoads_other fun y hy => gpMap_ne_replacement hy 0 rfl)) hax
  have hsp : h₃.reg .sp = h.reg .sp := by
    refine Eq.trans (b := h₂.reg .sp)
      (moveAll_other (fileLoads_other fun y hy => gpMap_ne_sp hy rfl)) ?_
    exact (HostState.reg_setReg_of_ne _ (by simp) _).trans (h₁.reg_setReg_of_ne (by simp) _)
  refine ⟨{ h₃ with flags := some (testFlags ((h₃.reg .dx).setWidth 32)
    ((h₃.reg .dx).setWidth 32)) }, ?_, ⟨fun y hy hlt => ?_, hfile.mem⟩, fun R slot hmem => ?_,
    ?_, ?_, ?_, fun c hc => ?_, rfl⟩
  · have hload : loadContext = (swapStores.map fun p => .mov64mrCell p.1 p.2) ++
        ([.movrr .s64 .ax .di, .movrr .s64 .dx .si] ++
          ((fileLoads.map fun p => .mov64rmCell p.1 p.2) ++ [.test32rr .dx .dx])) := by
      unfold loadContext fileLoads swapStores
      rw [List.map_map, List.map_map, List.append_assoc, List.append_assoc]
      rfl
    have hsi : (h₁.setReg .ax (h.reg .di)).reg .si = h.reg .si :=
      h₁.reg_setReg_of_ne (by simp) _
    rw [hload, runCode_append, store_move.runs swapStores h, Option.bind_some, runCode_append]
    have hmoves : runCode FeInstr.exec [.movrr .s64 .ax .di, .movrr .s64 .dx .si] h₁ =
        some h₂ := by
      show some ((h₁.setReg .ax (h.reg .di)).setReg .dx
        ((h₁.setReg .ax (h.reg .di)).reg .si)) = _
      rw [hsi]
    rw [hmoves, Option.bind_some, runCode_append, load_move.runs fileLoads h₂]
    rfl
  · rw [← hfile.regs y hy hlt]
    have hslot := hcell (.gp y) fun _ => by simp
    cases hmap : gpMap y with
    | some mapped =>
        refine (moveAll_moved fileLoads_nodup
          (List.mem_map.2 ⟨(y, mapped), mem_mappedGp.2 hmap, rfl⟩)).trans hslot
    | none => exact hslot
  · exact moveAll_moved swapStores_nodup (List.mem_map.2 ⟨(R, slot), hmem, rfl⟩)
  · exact hblock
  · show some (testFlags ((h₃.reg .dx).setWidth 32) ((h₃.reg .dx).setWidth 32)) = _
    rw [hdx]
  · exact hsp
  · exact hcell c hc

end

end RiaJit.Translate
