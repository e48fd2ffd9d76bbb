import RiaJit.Cache.Refinement
import Mathlib.Logic.Relation

/-!
# Probing terminates

The code cache as a machine whose steps end wherever `find_lin_slot` may be called next: between
two calls of the interface, and between two iterations of the loop in which `set_cache_entry`
inserts the old entries of a doubled table through itself. The calls in progress are a stack of
frames, so nested doublings are not excluded by construction; they do not occur.
-/

set_option autoImplicit false

namespace RiaJit.CodeCache

open LinearProbing

/-! ## The machine -/

/-- A call of `set_cache_entry` that has doubled the table: its arguments, `old_table` and the
loop variable. -/
structure Frame where
  riscAddr : RiscAddr
  cacheLoc : CacheLoc
  oldTable : Nat → CacheEntry
  i : Nat

/-- The globals and the calls in progress, the innermost first. -/
structure Config where
  cache : CodeCache
  calls : List Frame

/-- `set_cache_entry` is called: it stores the entry and returns, or doubles the table. -/
def enter (c : CodeCache) (calls : List Frame) (riscAddr : RiscAddr) (cacheLoc : CacheLoc) :
    Option Config := do
  let index ← c.findLinSlot riscAddr
  if c.countEntries ≥ c.tableSize >>> 1 then
    return ⟨c.doubled, ⟨riscAddr, cacheLoc, c.cacheTable, 0⟩ :: calls⟩
  else
    return ⟨c.storeEntry index riscAddr cacheLoc, calls⟩

/-- The innermost call goes on: with the next iteration of its loop, or behind the loop. -/
def resume : Config → Option Config
  | ⟨_, []⟩ => none
  | ⟨c, frame :: calls⟩ =>
      let entry := frame.oldTable frame.i
      if frame.i < c.tableSize >>> 1 then
        if entry.cacheLoc ≠ 0#64 then
          enter c ({ frame with i := frame.i + 1 } :: calls) entry.riscAddr entry.cacheLoc
        else some ⟨c, { frame with i := frame.i + 1 } :: calls⟩
      else do
        let index ← c.findLinSlot frame.riscAddr
        return ⟨c.storeEntry index frame.riscAddr frame.cacheLoc, calls⟩

/-- One step: a call of the interface where none is in progress, or a part of one. -/
inductive Step : Config → Config → Prop
  | set {c : CodeCache} {riscAddr : RiscAddr} {cacheLoc : CacheLoc} {s : Config}
      (hloc : cacheLoc ≠ unseenCode) (hcall : enter c [] riscAddr cacheLoc = some s) :
      Step ⟨c, []⟩ s
  | lookup {c c' : CodeCache} {riscAddr : RiscAddr} {cacheLoc : CacheLoc}
      (hcall : c.lookupCacheEntry riscAddr = some (cacheLoc, c')) : Step ⟨c, []⟩ ⟨c', []⟩
  | resume {s s' : Config} (hnext : resume s = some s') : Step s s'

/-- The states that calls lead to from `init_hash_table` on. -/
abbrev Reachable : Config → Prop := Relation.ReflTransGen Step ⟨initHashTable, []⟩

section Resume

variable {c : CodeCache} {frame : Frame} {calls : List Frame}

theorem resume_skip (hlt : frame.i < c.tableSize >>> 1)
    (hfree : (frame.oldTable frame.i).cacheLoc = 0#64) :
    resume ⟨c, frame :: calls⟩ = some ⟨c, { frame with i := frame.i + 1 } :: calls⟩ := by
  simp only [resume]
  rw [if_pos hlt, if_neg (not_not.2 hfree)]

theorem resume_insert (hlt : frame.i < c.tableSize >>> 1)
    (hentry : (frame.oldTable frame.i).cacheLoc ≠ 0#64) :
    resume ⟨c, frame :: calls⟩ = enter c ({ frame with i := frame.i + 1 } :: calls)
      (frame.oldTable frame.i).riscAddr (frame.oldTable frame.i).cacheLoc := by
  simp only [resume]
  rw [if_pos hlt, if_pos hentry]

theorem resume_return (hend : ¬ frame.i < c.tableSize >>> 1) {index : Nat}
    (hfind : c.findLinSlot frame.riscAddr = some index) :
    resume ⟨c, frame :: calls⟩ =
      some ⟨c.storeEntry index frame.riscAddr frame.cacheLoc, calls⟩ := by
  simp only [resume]
  rw [if_neg hend, hfind]
  rfl

end Resume

/-! ## The invariant -/

/-- Between calls the cache is a finite map. In a call that has doubled a full table the new table
holds the entries of the old one up to the loop variable. -/
inductive ConfigInv : Config → Prop
  | idle {c : CodeCache} {f : RiscAddr → Option CacheLoc} (hinv : Inv c f) : ConfigInv ⟨c, []⟩
  | growing {c g : CodeCache} {f : RiscAddr → Option CacheLoc} {frame : Frame} (hinv : Inv c f)
      (hloc : frame.cacheLoc ≠ 0#64) (hold : frame.oldTable = c.cacheTable)
      (hi : frame.i ≤ c.tableSize) (hrehash : RehashInv c f frame.i g) :
      ConfigInv ⟨g, [frame]⟩

section Steps

variable {c g : CodeCache} {f : RiscAddr → Option CacheLoc} {s s' : Config}

/-- The table is at most half full and its search ends, also while it is being filled. -/
theorem ConfigInv.table (h : ConfigInv s) : ∃ f, TableInv s.cache f := by
  cases h with
  | idle hinv => exact ⟨_, hinv.table⟩
  | growing _ _ _ _ hrehash => exact ⟨_, hrehash.table⟩

theorem enter_of_room (h : TableInv c f) (hroom : c.countEntries < c.tableSize >>> 1)
    (calls : List Frame) (a : RiscAddr) (loc : CacheLoc) :
    ∃ d, FirstEnd c.tableSize c.slots a (c.hash a) d ∧
      enter c calls a loc =
        some ⟨c.storeEntry (probeSlot c.tableSize (c.hash a) d) a loc, calls⟩ := by
  obtain ⟨d, hd, hfind⟩ := h.findLinSlot a
  refine ⟨d, hd, ?_⟩
  simp [enter, hfind, Nat.not_le.2 hroom]

theorem enter_of_full (h : TableInv c f) (hfull : c.countEntries ≥ c.tableSize >>> 1)
    (calls : List Frame) (a : RiscAddr) (loc : CacheLoc) :
    enter c calls a loc = some ⟨c.doubled, ⟨a, loc, c.cacheTable, 0⟩ :: calls⟩ := by
  obtain ⟨d, -, hfind⟩ := h.findLinSlot a
  simp [enter, hfind, hfull]

/-- A call of `set_cache_entry` where none is in progress. -/
theorem configInv_enter (h : Inv c f) {a : RiscAddr} {loc : CacheLoc} (hloc : loc ≠ 0#64) :
    ∃ s, enter c [] a loc = some s ∧ ConfigInv s := by
  by_cases hroom : c.countEntries < c.tableSize >>> 1
  · obtain ⟨d, hd, henter⟩ := enter_of_room h.table hroom [] a loc
    exact ⟨_, henter, .idle ⟨h.table.store hroom hloc hd, h.tlb.store _ _ _⟩⟩
  · refine ⟨_, enter_of_full h.table (Nat.not_lt.1 hroom) [] a loc, ?_⟩
    exact .growing h hloc rfl (Nat.zero_le _) (rehashInv_doubled h)

/-- The call in progress goes on, and returns behind its loop. -/
theorem configInv_resume (h : ConfigInv s) (hcalls : s.calls ≠ []) :
    ∃ s', resume s = some s' ∧ ConfigInv s' := by
  cases h with
  | idle _ => exact absurd rfl hcalls
  | @growing c g f frame hinv hloc hold hi hrehash =>
      have hbound : g.tableSize >>> 1 = c.tableSize := by
        rw [hrehash.size, Nat.shiftRight_one]
        omega
      obtain ⟨a, loc, oldTable, n⟩ := frame
      obtain rfl : oldTable = c.cacheTable := hold
      by_cases hlt : n < c.tableSize
      · have hlt' : n < g.tableSize >>> 1 := hbound.symm ▸ hlt
        by_cases hentry : (c.cacheTable n).cacheLoc = 0#64
        · exact ⟨⟨g, [⟨a, loc, c.cacheTable, n + 1⟩]⟩, resume_skip hlt' hentry,
            .growing hinv hloc rfl hlt (hrehash.skip hentry)⟩
        · -- the nested call finds room, so it does not double the table once more
          obtain ⟨d, hd, henter⟩ := enter_of_room hrehash.table (hrehash.room hlt)
            [⟨a, loc, c.cacheTable, n + 1⟩] (c.cacheTable n).riscAddr (c.cacheTable n).cacheLoc
          exact ⟨_, (resume_insert hlt' hentry).trans henter,
            .growing hinv hloc rfl hlt (hrehash.insert hinv.table hlt hentry hd)⟩
      · obtain rfl : n = c.tableSize := Nat.le_antisymm hi (Nat.not_lt.1 hlt)
        obtain ⟨htable, hroom⟩ := hrehash.complete hinv
        obtain ⟨d, hd, hfind⟩ := htable.findLinSlot a
        have hend : ¬ c.tableSize < g.tableSize >>> 1 := hbound.symm ▸ hlt
        exact ⟨_, resume_return hend hfind,
          .idle ⟨htable.store hroom hloc hd, hrehash.tlb.store _ _ _⟩⟩

/-- Every step keeps the invariant. -/
theorem ConfigInv.step (h : ConfigInv s) (hstep : Step s s') : ConfigInv s' := by
  cases hstep with
  | set hloc hcall =>
      cases h with
      | idle hinv =>
          obtain ⟨s₁, henter, hs₁⟩ := configInv_enter hinv hloc
          rw [hcall] at henter
          cases henter
          exact hs₁
  | lookup hcall =>
      cases h with
      | idle hinv =>
          obtain ⟨c₁, hlookup, hc₁⟩ := hinv.lookupCacheEntry _
          rw [hcall] at hlookup
          cases hlookup
          exact .idle hc₁
  | resume hnext =>
      have hcalls : s.calls ≠ [] := by
        intro hnil
        obtain ⟨c, calls⟩ := s
        obtain rfl : calls = [] := hnil
        cases hnext
      obtain ⟨s₁, hresume, hs₁⟩ := configInv_resume h hcalls
      rw [hnext] at hresume
      cases hresume
      exact hs₁

theorem configInv_reachable (h : Reachable s) : ConfigInv s := by
  induction h with
  | refl => exact .idle inv_initHashTable
  | tail _ hstep ih => exact ih.step hstep

end Steps

/-! ## Probing -/

/-- The slots of the table that hold an entry. -/
def occupiedSlots (c : CodeCache) : Finset Nat :=
  (Finset.range c.tableSize).filter fun i => (c.cacheTable i).cacheLoc ≠ 0#64

theorem occupied_slots (c : CodeCache) : occupied c.tableSize c.slots = c.occupiedSlots := by
  refine Finset.filter_congr fun i _ => ?_
  by_cases hloc : (c.cacheTable i).cacheLoc = 0#64
  · simp [slots_eq_none hloc, hloc]
  · simp [slots_eq_some hloc, hloc]

/-- Wherever `find_lin_slot` may be called it returns, for every address, an index of the table:
the size is a power of two, the count is that of the occupied slots, and it is at most half the
size. -/
theorem findLinSlot_terminates {s : Config} (h : Reachable s) :
    (∃ b, s.cache.tableSize = 2 ^ b) ∧
      s.cache.countEntries = s.cache.occupiedSlots.card ∧
      2 * s.cache.countEntries ≤ s.cache.tableSize ∧
      ∀ a, ∃ index, s.cache.findLinSlot a = some index ∧ index < s.cache.tableSize := by
  obtain ⟨f, htable⟩ := (configInv_reachable h).table
  obtain ⟨b, hsize⟩ := htable.size
  refine ⟨⟨b + 1, hsize⟩, ?_, ?_, fun a => ?_⟩
  · rw [htable.count, occupied_slots]
  · have hhalf := htable.half
    have hload := htable.load
    omega
  · obtain ⟨d, -, hfind⟩ := htable.findLinSlot a
    exact ⟨_, hfind, probeSlot_lt (hsize ▸ Nat.two_pow_pos _) _ _⟩

/-- The table after one entry. -/
def oneEntry : CodeCache := initHashTable.storeEntry 1 4#64 0x780000000000#64

/-- The table after two entries that are hashed to the same slot. -/
def collided : CodeCache := oneEntry.storeEntry 2 0x8004#64 0x780000000040#64

theorem findLinSlot_terminates_collided :
    collided.hash 4#64 = collided.hash 0x8004#64 ∧
      (∃ b, collided.tableSize = 2 ^ b) ∧ collided.countEntries = collided.occupiedSlots.card ∧
      2 * collided.countEntries ≤ collided.tableSize ∧
      ∀ a, ∃ index, collided.findLinSlot a = some index ∧ index < collided.tableSize :=
  ⟨by decide, @findLinSlot_terminates ⟨collided, []⟩ <| .tail
    (.single (@Step.set initHashTable 4#64 0x780000000000#64 ⟨oneEntry, []⟩ (by decide) rfl))
    (@Step.set oneEntry 0x8004#64 0x780000000040#64 ⟨collided, []⟩ (by decide) rfl)⟩

/-! ## Calls return -/

section Calls

variable {c g : CodeCache} {f : RiscAddr → Option CacheLoc}

/-- A step of the call in progress from a configuration with one frame. -/
theorem step_growing {a : RiscAddr} {loc : CacheLoc} {n : Nat} {s : Config}
    (hnext : resume ⟨g, [⟨a, loc, c.cacheTable, n⟩]⟩ = some s) :
    Relation.ReflTransGen Step ⟨g, [⟨a, loc, c.cacheTable, n⟩]⟩ s :=
  .single (.resume hnext)

/-- The loop of a call in progress does what the loop of `set_cache_entry` does. -/
theorem reaches_rehashLoop (h : Inv c f) (a : RiscAddr) (loc : CacheLoc) (depth : Nat) :
    ∀ (left n : Nat) (g : CodeCache), left + n = c.tableSize → RehashInv c f n g →
      ∃ g', rehashLoop (setCacheEntryDepth (depth + 1)) c.cacheTable (left + 1) n g = some g' ∧
        RehashInv c f c.tableSize g' ∧
        Relation.ReflTransGen Step ⟨g, [⟨a, loc, c.cacheTable, n⟩]⟩
          ⟨g', [⟨a, loc, c.cacheTable, c.tableSize⟩]⟩ := by
  intro left
  induction left with
  | zero =>
      intro n g hn hg
      rw [Nat.zero_add] at hn
      subst hn
      have hend : ¬ c.tableSize < g.tableSize >>> 1 := by
        rw [hg.size, Nat.shiftRight_one]
        omega
      exact ⟨g, by rw [rehashLoop, if_neg hend], hg, .refl⟩
  | succ left ih =>
      intro n g hn hg
      have hlt : n < c.tableSize := by omega
      have hbound : n < g.tableSize >>> 1 := by
        rw [hg.size, Nat.shiftRight_one]
        omega
      -- an empty entry is passed over, another one is set in the new table
      by_cases hentry : (c.cacheTable n).cacheLoc = 0#64
      · obtain ⟨g', hloop, hg', hreach⟩ := ih (n + 1) g (by omega) (hg.skip hentry)
        refine ⟨g', ?_, hg', (step_growing (resume_skip hbound hentry)).trans hreach⟩
        rw [rehashLoop, if_pos hbound, reinsert, if_neg (not_not.2 hentry)]
        exact hloop
      · obtain ⟨d, hd, hset⟩ := setCacheEntryDepth_of_room hg.table (hg.room hlt) depth
          (c.cacheTable n).riscAddr (c.cacheTable n).cacheLoc
        obtain ⟨d', hd', henter⟩ := enter_of_room hg.table (hg.room hlt)
          [⟨a, loc, c.cacheTable, n + 1⟩] (c.cacheTable n).riscAddr (c.cacheTable n).cacheLoc
        obtain rfl := hd.unique hd'
        obtain ⟨g', hloop, hg', hreach⟩ :=
          ih (n + 1) _ (by omega) (hg.insert h.table hlt hentry hd)
        have hfirst : resume ⟨g, [⟨a, loc, c.cacheTable, n⟩]⟩ = _ := resume_insert hbound hentry
        refine ⟨g', ?_, hg', (step_growing (hfirst.trans henter)).trans hreach⟩
        rw [rehashLoop, if_pos hbound, reinsert, if_pos hentry, hset]
        exact hloop

/-- A call of `set_cache_entry` leads through steps of the machine to what it returns. -/
theorem reaches_setCacheEntry (h : Inv c f) (a : RiscAddr) {loc : CacheLoc} (hloc : loc ≠ 0#64) :
    ∃ c', c.setCacheEntry a loc = some c' ∧ Relation.ReflTransGen Step ⟨c, []⟩ ⟨c', []⟩ := by
  by_cases hroom : c.countEntries < c.tableSize >>> 1
  · obtain ⟨d, hd, hset⟩ := setCacheEntryDepth_of_room h.table hroom 1 a loc
    obtain ⟨d', hd', henter⟩ := enter_of_room h.table hroom [] a loc
    obtain rfl := hd.unique hd'
    exact ⟨_, hset, .single (.set hloc henter)⟩
  · obtain ⟨d, -, hfind⟩ := h.table.findLinSlot a
    have henter := enter_of_full h.table (Nat.not_lt.1 hroom) [] a loc
    obtain ⟨g, hloop, hg, hreach⟩ := reaches_rehashLoop h a loc 0 c.tableSize 0 c.doubled rfl
      (rehashInv_doubled h)
    obtain ⟨htable, -⟩ := hg.complete h
    obtain ⟨d', -, hfind'⟩ := htable.findLinSlot a
    have hend : ¬ c.tableSize < g.tableSize >>> 1 := by
      rw [hg.size, Nat.shiftRight_one]
      omega
    refine ⟨_, ?_, ((Relation.ReflTransGen.single (.set hloc henter)).trans hreach).trans
      (step_growing (resume_return hend hfind'))⟩
    show setCacheEntryDepth 2 c a loc = _
    rw [setCacheEntryDepth, hfind]
    simp only [Option.bind_eq_bind, Option.bind_some, ge_iff_le]
    rw [if_pos (Nat.not_lt.1 hroom), hloop]
    simp [hfind']

end Calls

end RiaJit.CodeCache
