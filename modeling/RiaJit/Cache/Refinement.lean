import RiaJit.Cache.CodeCache
import RiaJit.Lib.LinearProbing
import Mathlib.Tactic.Ring

/-!
# The code cache is a finite map

`TableInv` relates the open-addressing table to the map it stores, `TlbInv` the
direct-mapped table in front of it. Both hold of the freshly initialised cache and
are kept by `set_cache_entry` and `lookup_cache_entry`, the doubling of the table
included: while the old entries are inserted again the table represents a part of
the map and the TLB the whole of it. From this every call sequence returns the
values of the finite map that the calls describe.
-/

set_option autoImplicit false

namespace RiaJit.CodeCache

open LinearProbing

/-- The table as slots of a linear probing table; an entry without code is free. -/
def slots (c : CodeCache) : Slots RiscAddr CacheLoc := fun i =>
  if (c.cacheTable i).cacheLoc = 0#64 then none
  else some ((c.cacheTable i).riscAddr, (c.cacheTable i).cacheLoc)

/-- The table stores exactly the map `f`, at most half full. -/
structure TableInv (c : CodeCache) (f : RiscAddr → Option CacheLoc) : Prop where
  size : ∃ b, c.tableSize = 2 ^ (b + 1)
  placed : WellPlaced c.tableSize c.hash c.slots
  repr : Represents c.tableSize c.slots f
  count : c.countEntries = (occupied c.tableSize c.slots).card
  load : c.countEntries ≤ c.tableSize >>> 1

/-- A hit in the TLB returns the value of the map. -/
def TlbInv (c : CodeCache) (f : RiscAddr → Option CacheLoc) : Prop :=
  ∀ a, (c.tlb (smallhash a)).riscAddr = a →
    (c.tlb (smallhash a)).cacheLoc = (f a).getD unseenCode

/-- The cache represents the finite map `f`. -/
structure Inv (c : CodeCache) (f : RiscAddr → Option CacheLoc) : Prop where
  table : TableInv c f
  tlb : TlbInv c f

section Slots

variable {c : CodeCache} {f : RiscAddr → Option CacheLoc}

theorem slots_eq_none {i : Nat} (h : (c.cacheTable i).cacheLoc = 0#64) : c.slots i = none :=
  if_pos h

theorem slots_eq_some {i : Nat} (h : (c.cacheTable i).cacheLoc ≠ 0#64) :
    c.slots i = some ((c.cacheTable i).riscAddr, (c.cacheTable i).cacheLoc) :=
  if_neg h

/-- The loop of `find_lin_slot` goes on exactly where the search has not ended. -/
theorem not_ends_iff (a : RiscAddr) (i : Nat) :
    (c.cacheTable i).cacheLoc ≠ 0#64 ∧ (c.cacheTable i).riscAddr ≠ a ↔ ¬ Ends c.slots a i := by
  by_cases hloc : (c.cacheTable i).cacheLoc = 0#64
  · simp [Ends, hloc, slots_eq_none hloc]
  · simp only [Ends, slots_eq_some hloc, Option.some.injEq, forall_eq']
    exact ⟨fun h => h.2, fun h => ⟨hloc, h⟩⟩

theorem TableInv.hash_lt (h : TableInv c f) (a : RiscAddr) : c.hash a < c.tableSize := by
  obtain ⟨b, hb⟩ := h.size
  unfold hash
  rw [hb, Nat.and_two_pow_sub_one_eq_mod]
  exact Nat.mod_lt _ (Nat.two_pow_pos _)

theorem TableInv.half (h : TableInv c f) : c.tableSize = 2 * (c.tableSize >>> 1) := by
  obtain ⟨b, hb⟩ := h.size
  rw [Nat.shiftRight_one, hb, Nat.pow_succ]
  omega

/-- A table that is at most half full has a free slot. -/
theorem TableInv.exists_firstEnd (h : TableInv c f) (a : RiscAddr) :
    ∃ d, FirstEnd c.tableSize c.slots a (c.hash a) d := by
  have hlt : (occupied c.tableSize c.slots).card < c.tableSize := by
    have hpos := h.hash_lt a
    have hload := h.load
    have hhalf := h.half
    rw [← h.count]
    omega
  obtain ⟨j, hj, hfree⟩ := exists_free hlt
  exact LinearProbing.exists_firstEnd hj hfree a _ (h.hash_lt a)

/-- With enough fuel the loop of `find_lin_slot` returns the end of the search. -/
theorem findLinSlotLoop_eq (hsize : ∃ b, c.tableSize = 2 ^ (b + 1)) {a : RiscAddr}
    {d : Nat} : ∀ {i fuel : Nat}, i < c.tableSize → d < fuel →
      FirstEnd c.tableSize c.slots a i d →
      findLinSlotLoop c a fuel i = some (probeSlot c.tableSize i d) := by
  induction d with
  | zero =>
      intro i fuel hi hfuel h
      obtain ⟨n, rfl⟩ : ∃ n, fuel = n + 1 := ⟨fuel - 1, by omega⟩
      have hends := h.ends
      rw [probeSlot_zero hi] at hends ⊢
      rw [findLinSlotLoop, if_neg]
      exact fun hgo => (not_ends_iff a i).1 hgo hends
  | succ d ih =>
      intro i fuel hi hfuel h
      obtain ⟨n, rfl⟩ : ∃ n, fuel = n + 1 := ⟨fuel - 1, by omega⟩
      have hgo : ¬ Ends c.slots a i := by
        have := h.before 0 (Nat.succ_pos d)
        rwa [probeSlot_zero hi] at this
      have hmask : (i + 1) &&& (c.tableSize - 1) = (i + 1) % c.tableSize := by
        obtain ⟨b, hb⟩ := hsize
        rw [hb, Nat.and_two_pow_sub_one_eq_mod]
      rw [findLinSlotLoop, if_pos ((not_ends_iff a i).2 hgo), hmask, ← probeSlot_succ]
      exact ih (Nat.mod_lt _ (by omega)) (by omega) h.tail

/-- `find_lin_slot` returns the end of the search, an index inside the table. -/
theorem TableInv.findLinSlot (h : TableInv c f) (a : RiscAddr) :
    ∃ d, FirstEnd c.tableSize c.slots a (c.hash a) d ∧
      c.findLinSlot a = some (probeSlot c.tableSize (c.hash a) d) := by
  obtain ⟨d, hd⟩ := h.exists_firstEnd a
  exact ⟨d, hd, findLinSlotLoop_eq h.size (h.hash_lt a) hd.lt hd⟩

/-- The entry found for an address holds the value of the map. -/
theorem TableInv.cacheLoc_at (h : TableInv c f) {a : RiscAddr} {d : Nat}
    (hd : FirstEnd c.tableSize c.slots a (c.hash a) d) :
    (c.cacheTable (probeSlot c.tableSize (c.hash a) d)).cacheLoc = (f a).getD unseenCode := by
  have hval := h.repr.at_firstEnd h.placed hd
  by_cases hloc : (c.cacheTable (probeSlot c.tableSize (c.hash a) d)).cacheLoc = 0#64
  · rw [slots_eq_none hloc] at hval
    rw [← hval, hloc]
    rfl
  · rw [slots_eq_some hloc] at hval
    rw [← hval]
    rfl

/-- Stored locations are never `UNSEEN_CODE`. -/
theorem TableInv.ne_unseen (h : TableInv c f) {a : RiscAddr} {loc : CacheLoc}
    (hf : f a = some loc) : loc ≠ unseenCode := by
  obtain ⟨i, -, hstored⟩ := (h.repr a loc).2 hf
  by_cases hloc : (c.cacheTable i).cacheLoc = 0#64
  · rw [slots_eq_none hloc] at hstored
    cases hstored
  · rw [slots_eq_some hloc] at hstored
    cases hstored
    exact hloc

end Slots

/-! ## Storing an entry -/

section Store

variable {c : CodeCache} {f : RiscAddr → Option CacheLoc}

@[simp] theorem setTlb_tableSize (c : CodeCache) (a : RiscAddr) (loc : CacheLoc) :
    (c.setTlb a loc).tableSize = c.tableSize := rfl

@[simp] theorem setTlb_countEntries (c : CodeCache) (a : RiscAddr) (loc : CacheLoc) :
    (c.setTlb a loc).countEntries = c.countEntries := rfl

@[simp] theorem setTlb_slots (c : CodeCache) (a : RiscAddr) (loc : CacheLoc) :
    (c.setTlb a loc).slots = c.slots := rfl

@[simp] theorem setTlb_hash (c : CodeCache) (a : RiscAddr) (loc : CacheLoc) :
    (c.setTlb a loc).hash = c.hash := rfl

@[simp] theorem storeEntry_tableSize (c : CodeCache) (i : Nat) (a : RiscAddr)
    (loc : CacheLoc) : (c.storeEntry i a loc).tableSize = c.tableSize := by
  unfold storeEntry
  split <;> rfl

theorem storeEntry_hash (c : CodeCache) (i : Nat) (a : RiscAddr) (loc : CacheLoc) :
    (c.storeEntry i a loc).hash = c.hash := by
  funext b
  simp [hash]

@[simp] theorem storeEntry_tlb (c : CodeCache) (i : Nat) (a : RiscAddr) (loc : CacheLoc) :
    (c.storeEntry i a loc).tlb = Function.update c.tlb (smallhash a) ⟨a, loc⟩ := by
  unfold storeEntry
  split <;> rfl

/-- Storing at the end of a search puts the pair there and leaves the other slots. -/
theorem storeEntry_slots {a : RiscAddr} {loc : CacheLoc} {i : Nat}
    (hends : Ends c.slots a i) (hloc : loc ≠ 0#64) :
    (c.storeEntry i a loc).slots = Function.update c.slots i (some (a, loc)) := by
  funext j
  by_cases hji : j = i
  · subst hji
    rw [Function.update_self]
    by_cases hold : (c.cacheTable j).cacheLoc = 0#64
    · simp [storeEntry, hold, slots, setTlb, hloc]
    · have hkey : (c.cacheTable j).riscAddr = a := hends _ (slots_eq_some hold)
      simp [storeEntry, hold, slots, setTlb, hloc, hkey]
  · rw [Function.update_of_ne hji]
    by_cases hold : (c.cacheTable i).cacheLoc = 0#64
    · simp [storeEntry, hold, slots, setTlb, Function.update_of_ne hji]
    · simp [storeEntry, hold, slots, setTlb, Function.update_of_ne hji]

/-- Storing counts new keys only. -/
theorem storeEntry_countEntries (c : CodeCache) (i : Nat) (a : RiscAddr) (loc : CacheLoc) :
    (c.storeEntry i a loc).countEntries =
      if (c.cacheTable i).cacheLoc ≠ 0#64 then c.countEntries else c.countEntries + 1 := by
  unfold storeEntry
  split <;> rfl

/-- `set_cache_entry` without growth updates the stored map. -/
theorem TableInv.store (h : TableInv c f) (hroom : c.countEntries < c.tableSize >>> 1)
    {a : RiscAddr} {loc : CacheLoc} (hloc : loc ≠ 0#64) {d : Nat}
    (hd : FirstEnd c.tableSize c.slots a (c.hash a) d) :
    TableInv (c.storeEntry (probeSlot c.tableSize (c.hash a) d) a loc)
      (Function.update f a (some loc)) := by
  have hm : 0 < c.tableSize := Nat.lt_of_le_of_lt (Nat.zero_le d) hd.lt
  have hslots := storeEntry_slots hd.ends hloc
  refine ⟨?_, ?_, ?_, ?_, ?_⟩
  · rw [storeEntry_tableSize]
    exact h.size
  · rw [storeEntry_tableSize, storeEntry_hash, hslots]
    exact h.placed.store hd loc
  · rw [storeEntry_tableSize, hslots]
    exact h.repr.store h.placed hd loc
  · rw [storeEntry_tableSize, hslots, storeEntry_countEntries, h.count]
    by_cases hold : (c.cacheTable (probeSlot c.tableSize (c.hash a) d)).cacheLoc = 0#64
    · rw [if_neg (not_not.2 hold), card_occupied_update_none (probeSlot_lt hm _ _)
        (slots_eq_none hold)]
    · rw [if_pos hold, card_occupied_update_some (slots_eq_some hold)]
  · rw [storeEntry_tableSize, storeEntry_countEntries]
    split <;> omega

theorem TlbInv.store (h : TlbInv c f) (i : Nat) (a : RiscAddr) (loc : CacheLoc) :
    TlbInv (c.storeEntry i a loc) (Function.update f a (some loc)) := by
  intro b hb
  rw [storeEntry_tlb] at hb ⊢
  by_cases hba : b = a
  · subst hba
    simp
  · by_cases hhash : smallhash b = smallhash a
    · rw [hhash, Function.update_self] at hb
      exact absurd hb.symm hba
    · rw [Function.update_of_ne hhash] at hb ⊢
      rw [Function.update_of_ne hba]
      exact h b hb

end Store

/-! ## Doubling the table -/

section Grow

variable {c : CodeCache} {f : RiscAddr → Option CacheLoc}

/-- The part of the map whose keys lie in the first `n` slots of the table. -/
def partMap (c : CodeCache) (f : RiscAddr → Option CacheLoc) (n : Nat) :
    RiscAddr → Option CacheLoc := fun a =>
  if ∃ i, i < n ∧ ∃ loc, c.slots i = some (a, loc) then f a else none

/-- Progress of the rehashing loop: `g` is the new cache after `n` old slots. -/
structure RehashInv (c : CodeCache) (f : RiscAddr → Option CacheLoc) (n : Nat)
    (g : CodeCache) : Prop where
  table : TableInv g (c.partMap f n)
  tlb : TlbInv g f
  size : g.tableSize = 2 * c.tableSize
  count : g.countEntries ≤ n

theorem partMap_full (h : TableInv c f) : c.partMap f c.tableSize = f := by
  funext a
  unfold partMap
  split
  · rfl
  · rename_i hno
    cases hf : f a with
    | none => rfl
    | some loc =>
        obtain ⟨i, hi, hstored⟩ := (h.repr a loc).2 hf
        exact absurd ⟨i, hi, loc, hstored⟩ hno

theorem partMap_succ_none {n : Nat} (hfree : c.slots n = none) :
    c.partMap f (n + 1) = c.partMap f n := by
  funext a
  unfold partMap
  congr 1
  rw [eq_iff_iff]
  constructor
  · rintro ⟨i, hi, loc, hstored⟩
    rcases Nat.lt_succ_iff_lt_or_eq.1 hi with hlt | heq
    · exact ⟨i, hlt, loc, hstored⟩
    · rw [heq, hfree] at hstored
      cases hstored
  · rintro ⟨i, hi, hstored⟩
    exact ⟨i, Nat.lt_succ_of_lt hi, hstored⟩

theorem partMap_succ_some {n : Nat} {a : RiscAddr} {loc : CacheLoc}
    (hstored : c.slots n = some (a, loc)) (hf : f a = some loc) :
    c.partMap f (n + 1) = Function.update (c.partMap f n) a (some loc) := by
  funext b
  by_cases hba : b = a
  · subst hba
    rw [Function.update_self, partMap, if_pos ⟨n, Nat.lt_succ_self n, loc, hstored⟩, hf]
  · rw [Function.update_of_ne hba]
    unfold partMap
    congr 1
    rw [eq_iff_iff]
    constructor
    · rintro ⟨i, hi, loc', hi'⟩
      rcases Nat.lt_succ_iff_lt_or_eq.1 hi with hlt | heq
      · exact ⟨i, hlt, loc', hi'⟩
      · rw [heq, hstored] at hi'
        cases hi'
        exact absurd rfl hba
    · rintro ⟨i, hi, hi'⟩
      exact ⟨i, Nat.lt_succ_of_lt hi, hi'⟩

/-- The empty table of twice the size, with the old TLB. -/
theorem rehashInv_doubled (h : Inv c f) : RehashInv c f 0 c.doubled := by
  have hslots : c.doubled.slots = emptySlots := by
    funext i
    rfl
  have hmap : c.partMap f 0 = fun _ => none := by
    funext a
    simp [partMap]
  have hsize : c.doubled.tableSize = 2 * c.tableSize := by
    simp [doubled, Nat.shiftLeft_eq, Nat.mul_comm]
  refine ⟨⟨?_, ?_, ?_, ?_, Nat.zero_le _⟩, h.tlb, hsize, Nat.le_refl 0⟩
  · obtain ⟨b, hb⟩ := h.table.size
    exact ⟨b + 1, by rw [hsize, hb, Nat.pow_succ 2 (b + 1), Nat.mul_comm]⟩
  · rw [hslots]
    exact wellPlaced_empty _ _
  · rw [hslots, hmap]
    exact represents_empty _
  · rw [hslots, occupied_empty]
    rfl

/-- A call of `set_cache_entry` below the growth limit, with any depth left. -/
theorem setCacheEntryDepth_of_room (h : TableInv c f)
    (hroom : c.countEntries < c.tableSize >>> 1) (depth : Nat) (a : RiscAddr)
    (loc : CacheLoc) :
    ∃ d, FirstEnd c.tableSize c.slots a (c.hash a) d ∧
      setCacheEntryDepth (depth + 1) c a loc =
        some (c.storeEntry (probeSlot c.tableSize (c.hash a) d) a loc) := by
  obtain ⟨d, hd, hfind⟩ := h.findLinSlot a
  refine ⟨d, hd, ?_⟩
  rw [setCacheEntryDepth, hfind]
  simp [Nat.not_le.2 hroom]

/-- A free old slot is skipped. -/
theorem RehashInv.skip {n : Nat} {g : CodeCache} (hg : RehashInv c f n g)
    (hold : (c.cacheTable n).cacheLoc = 0#64) : RehashInv c f (n + 1) g := by
  refine ⟨?_, hg.tlb, hg.size, Nat.le_succ_of_le hg.count⟩
  rw [partMap_succ_none (slots_eq_none hold)]
  exact hg.table

/-- The new table has room for every old entry. -/
theorem RehashInv.room {n : Nat} {g : CodeCache} (hg : RehashInv c f n g) (hn : n < c.tableSize) :
    g.countEntries < g.tableSize >>> 1 := by
  have hcount := hg.count
  rw [hg.size, Nat.shiftRight_one]
  omega

/-- An old entry is inserted. -/
theorem RehashInv.insert {n : Nat} {g : CodeCache} (h : TableInv c f) (hn : n < c.tableSize)
    (hg : RehashInv c f n g) (hold : (c.cacheTable n).cacheLoc ≠ 0#64) {d : Nat}
    (hd : FirstEnd g.tableSize g.slots (c.cacheTable n).riscAddr
      (g.hash (c.cacheTable n).riscAddr) d) :
    RehashInv c f (n + 1) (g.storeEntry
      (probeSlot g.tableSize (g.hash (c.cacheTable n).riscAddr) d)
      (c.cacheTable n).riscAddr (c.cacheTable n).cacheLoc) := by
  have hstored := slots_eq_some hold
  have hf := (h.repr _ _).1 ⟨n, hn, hstored⟩
  refine ⟨?_, ?_, ?_, ?_⟩
  · rw [partMap_succ_some hstored hf]
    exact hg.table.store (hg.room hn) hold hd
  · have hupd : Function.update f (c.cacheTable n).riscAddr
        (some (c.cacheTable n).cacheLoc) = f := by
      rw [← hf, Function.update_eq_self]
    rw [← hupd]
    exact hg.tlb.store _ _ _
  · rw [storeEntry_tableSize]
    exact hg.size
  · have hcount := hg.count
    rw [storeEntry_countEntries]
    split <;> omega

/-- One iteration of the rehashing loop. -/
theorem RehashInv.step {n : Nat} {g : CodeCache} (h : TableInv c f) (hn : n < c.tableSize)
    (hg : RehashInv c f n g) (depth : Nat) :
    ∃ g', reinsert (setCacheEntryDepth (depth + 1)) (c.cacheTable n) g = some g' ∧
      RehashInv c f (n + 1) g' := by
  by_cases hold : (c.cacheTable n).cacheLoc = 0#64
  · exact ⟨g, by rw [reinsert, if_neg (not_not.2 hold)], hg.skip hold⟩
  · obtain ⟨d, hd, hset⟩ := setCacheEntryDepth_of_room hg.table (hg.room hn) depth
      (c.cacheTable n).riscAddr (c.cacheTable n).cacheLoc
    exact ⟨_, by rw [reinsert, if_pos hold, hset], hg.insert h hn hold hd⟩

/-- The new table holds the whole map in the end, and has room for one more entry. -/
theorem RehashInv.complete {g : CodeCache} (h : Inv c f) (hg : RehashInv c f c.tableSize g) :
    TableInv g f ∧ g.countEntries < g.tableSize >>> 1 := by
  have htable : TableInv g f := by
    have hpart := hg.table
    rwa [partMap_full h.table] at hpart
  refine ⟨htable, ?_⟩
  have hhalf := h.table.half
  have hload := h.table.load
  have hpos := h.table.hash_lt 0#64
  obtain ⟨D, hD⟩ := h.table.repr.exists_domain
  have hsame : g.countEntries = c.countEntries := by
    rw [htable.count, h.table.count, htable.repr.card_occupied htable.placed D hD,
      h.table.repr.card_occupied h.table.placed D hD]
  rw [hsame, hg.size, Nat.shiftRight_one]
  omega

/-- The rehashing loop visits every old slot and ends. -/
theorem RehashInv.loop (h : TableInv c f) (depth : Nat) :
    ∀ (left n : Nat) (g : CodeCache), left + n = c.tableSize → RehashInv c f n g →
      ∃ g', rehashLoop (setCacheEntryDepth (depth + 1)) c.cacheTable (left + 1) n g = some g' ∧
        RehashInv c f c.tableSize g' := by
  intro left
  induction left with
  | zero =>
      intro n g hn hg
      have hend : ¬ n < g.tableSize >>> 1 := by
        rw [hg.size, Nat.shiftRight_one]
        omega
      rw [Nat.zero_add] at hn
      subst hn
      exact ⟨g, by rw [rehashLoop, if_neg hend], hg⟩
  | succ left ih =>
      intro n g hn hg
      have hlt : n < g.tableSize >>> 1 := by
        rw [hg.size, Nat.shiftRight_one]
        omega
      obtain ⟨g', hstep, hg'⟩ := hg.step h (by omega) depth
      obtain ⟨g'', hloop, hg''⟩ := ih (n + 1) g' (by omega) hg'
      refine ⟨g'', ?_, hg''⟩
      rw [rehashLoop, if_pos hlt, hstep]
      exact hloop

end Grow

/-! ## The operations -/

section Operations

variable {c : CodeCache} {f : RiscAddr → Option CacheLoc}

/-- `set_cache_entry` returns and updates the map. -/
theorem Inv.setCacheEntry (h : Inv c f) (a : RiscAddr) {loc : CacheLoc} (hloc : loc ≠ 0#64) :
    ∃ c', c.setCacheEntry a loc = some c' ∧ Inv c' (Function.update f a (some loc)) := by
  by_cases hroom : c.countEntries < c.tableSize >>> 1
  · obtain ⟨d, hd, hset⟩ := setCacheEntryDepth_of_room h.table hroom 1 a loc
    exact ⟨_, hset, h.table.store hroom hloc hd, h.tlb.store _ _ _⟩
  · obtain ⟨d, -, hfind⟩ := h.table.findLinSlot a
    obtain ⟨g, hloop, hg⟩ := RehashInv.loop h.table 0 c.tableSize 0 c.doubled rfl
      (rehashInv_doubled h)
    obtain ⟨htable, hgroom⟩ := hg.complete h
    obtain ⟨d', hd', hfind'⟩ := htable.findLinSlot a
    refine ⟨_, ?_, htable.store hgroom hloc hd', hg.tlb.store _ _ _⟩
    show setCacheEntryDepth 2 c a loc = _
    rw [setCacheEntryDepth, hfind]
    simp only [Option.bind_eq_bind, Option.bind_some, ge_iff_le]
    rw [if_pos (Nat.not_lt.1 hroom), hloop]
    simp [hfind']

/-- `lookup_cache_entry` returns the value of the map and keeps it. -/
theorem Inv.lookupCacheEntry (h : Inv c f) (a : RiscAddr) :
    ∃ c', c.lookupCacheEntry a = some ((f a).getD unseenCode, c') ∧ Inv c' f := by
  by_cases htlb : (c.tlb (smallhash a)).riscAddr = a
  · refine ⟨c, ?_, h⟩
    rw [CodeCache.lookupCacheEntry, if_pos htlb, h.tlb a htlb]
  · obtain ⟨d, hd, hfind⟩ := h.table.findLinSlot a
    have hval := h.table.cacheLoc_at hd
    rw [CodeCache.lookupCacheEntry, if_neg htlb, hfind]
    by_cases hloc : (c.cacheTable (probeSlot c.tableSize (c.hash a) d)).cacheLoc = 0#64
    · refine ⟨c, ?_, h⟩
      rw [← hval]
      simp [hloc]
    · refine ⟨c.setTlb a (c.cacheTable (probeSlot c.tableSize (c.hash a) d)).cacheLoc, ?_, ?_⟩
      · rw [← hval]
        simp [hloc]
      · refine ⟨⟨h.table.size, h.table.placed, h.table.repr, h.table.count, h.table.load⟩, ?_⟩
        intro b hb
        by_cases hhash : smallhash b = smallhash a
        · simp only [setTlb, hhash, Function.update_self] at hb ⊢
          rw [← hb, hval]
        · simp only [setTlb, Function.update_of_ne hhash] at hb ⊢
          exact h.tlb b hb

/-- The cache after `init_hash_table` represents the empty map. -/
theorem inv_initHashTable : Inv initHashTable fun _ => none := by
  have hslots : initHashTable.slots = emptySlots := by
    funext i
    rfl
  refine ⟨⟨⟨12, rfl⟩, ?_, ?_, ?_, Nat.zero_le _⟩, ?_⟩
  · rw [hslots]
    exact wellPlaced_empty _ _
  · rw [hslots]
    exact represents_empty _
  · rw [hslots, occupied_empty]
    rfl
  · intro a _
    rfl

/-- The entry count is the number of addresses with an entry. -/
theorem Inv.getCacheEntryCount (h : Inv c f) (D : Finset RiscAddr)
    (hD : ∀ a, a ∈ D ↔ (f a).isSome) : c.getCacheEntryCount = D.card :=
  h.table.count.trans (Represents.card_occupied h.table.placed h.table.repr D hD)

end Operations

/-! ## Call sequences -/

/-- A call of the cache interface. -/
inductive CacheOp where
  | set (riscAddr : RiscAddr) (cacheLoc : CacheLoc)
  | lookup (riscAddr : RiscAddr)
  deriving DecidableEq, Repr

/-- Execute calls in order; the returned locations are those of the lookups. -/
def runOps : CodeCache → List CacheOp → Option (CodeCache × List CacheLoc)
  | c, [] => some (c, [])
  | c, .set riscAddr cacheLoc :: ops => do
      let c ← c.setCacheEntry riscAddr cacheLoc
      runOps c ops
  | c, .lookup riscAddr :: ops => do
      let (cacheLoc, c) ← c.lookupCacheEntry riscAddr
      let (c, locs) ← runOps c ops
      return (c, cacheLoc :: locs)

/-- The location of the latest `set` for an address, or `UNSEEN_CODE`. -/
def latestSet : List CacheOp → RiscAddr → Option CacheLoc
  | [], _ => none
  | .set riscAddr cacheLoc :: ops, a =>
      match latestSet ops a with
      | some loc => some loc
      | none => if riscAddr = a then some cacheLoc else none
  | .lookup _ :: ops, a => latestSet ops a

/-- What the lookups among `ops` have to return after the calls `done`. -/
def expectedLocs : List CacheOp → List CacheOp → List CacheLoc
  | _, [] => []
  | done, .set riscAddr cacheLoc :: ops =>
      expectedLocs (done ++ [.set riscAddr cacheLoc]) ops
  | done, .lookup riscAddr :: ops =>
      (latestSet done riscAddr).getD unseenCode ::
        expectedLocs (done ++ [.lookup riscAddr]) ops

/-- The addresses of the `set` calls. -/
def setAddrs (ops : List CacheOp) : Finset RiscAddr :=
  (ops.filterMap fun
    | .set riscAddr _ => some riscAddr
    | .lookup _ => none).toFinset

section Runs

theorem latestSet_append_set (ops : List CacheOp) (a : RiscAddr) (loc : CacheLoc) :
    latestSet (ops ++ [.set a loc]) = Function.update (latestSet ops) a (some loc) := by
  funext b
  induction ops with
  | nil =>
      by_cases hba : b = a
      · subst hba
        simp [latestSet]
      · simp [latestSet, Function.update_of_ne hba, Ne.symm hba]
  | cons op ops ih =>
      cases op with
      | set a' loc' =>
          simp only [List.cons_append, latestSet, ih]
          by_cases hba : b = a
          · subst hba
            simp
          · simp only [Function.update_of_ne hba]
      | lookup a' =>
          simp only [List.cons_append, latestSet, ih]

theorem latestSet_append_lookup (ops : List CacheOp) (a : RiscAddr) :
    latestSet (ops ++ [.lookup a]) = latestSet ops := by
  funext b
  induction ops with
  | nil => rfl
  | cons op ops ih =>
      cases op with
      | set a' loc' => simp only [List.cons_append, latestSet, ih]
      | lookup a' => simp only [List.cons_append, latestSet, ih]

theorem mem_setAddrs_iff (ops : List CacheOp) (a : RiscAddr) :
    a ∈ setAddrs ops ↔ (latestSet ops a).isSome := by
  induction ops with
  | nil => simp [setAddrs, latestSet]
  | cons op ops ih =>
      cases op with
      | set a' loc =>
          rw [latestSet]
          cases hl : latestSet ops a with
          | some l =>
              rw [hl] at ih
              simp only [setAddrs, List.mem_toFinset] at ih
              simp [setAddrs, ih]
          | none =>
              rw [hl] at ih
              simp only [setAddrs, List.mem_toFinset, Option.isSome_none, Bool.false_eq_true,
                iff_false] at ih
              by_cases haa : a' = a
              · simp [setAddrs, haa]
              · simp [setAddrs, haa, Ne.symm haa, ih]
      | lookup a' => simpa [setAddrs, latestSet] using ih

/-- Every call sequence from a cache that represents the calls `done` returns, gives
the expected locations and represents all calls. -/
theorem runOps_of_inv {done ops : List CacheOp} {c : CodeCache}
    (hc : Inv c (latestSet done)) (hset : ∀ a loc, CacheOp.set a loc ∈ ops → loc ≠ unseenCode) :
    ∃ c', runOps c ops = some (c', expectedLocs done ops) ∧ Inv c' (latestSet (done ++ ops)) := by
  induction ops generalizing done c with
  | nil => exact ⟨c, rfl, by simpa using hc⟩
  | cons op ops ih =>
      have hrest : ∀ a loc, CacheOp.set a loc ∈ ops → loc ≠ unseenCode :=
        fun a loc hmem => hset a loc (List.mem_cons_of_mem _ hmem)
      cases op with
      | set a loc =>
          obtain ⟨c₁, hrun₁, hc₁⟩ := hc.setCacheEntry a (hset a loc (List.mem_cons_self ..))
          rw [← latestSet_append_set] at hc₁
          obtain ⟨c₂, hrun₂, hc₂⟩ := ih hc₁ hrest
          refine ⟨c₂, ?_, ?_⟩
          · rw [runOps, hrun₁]
            exact hrun₂
          · simpa using hc₂
      | lookup a =>
          obtain ⟨c₁, hrun₁, hc₁⟩ := hc.lookupCacheEntry a
          rw [← latestSet_append_lookup done a] at hc₁
          obtain ⟨c₂, hrun₂, hc₂⟩ := ih hc₁ hrest
          refine ⟨c₂, ?_, ?_⟩
          · rw [runOps, hrun₁]
            simp only [Option.bind_eq_bind, Option.bind_some, hrun₂]
            rfl
          · simpa using hc₂

/-- A TLB hit and a search of the table give the same location, and the search ends
inside the table. -/
theorem Inv.tlb_agrees {c : CodeCache} {f : RiscAddr → Option CacheLoc} (h : Inv c f)
    (a : RiscAddr) : ∃ i, c.findLinSlot a = some i ∧ i < c.tableSize ∧
      (c.cacheTable i).cacheLoc = (f a).getD unseenCode ∧
      ((c.tlb (smallhash a)).riscAddr = a →
        (c.tlb (smallhash a)).cacheLoc = (c.cacheTable i).cacheLoc) := by
  obtain ⟨d, hd, hfind⟩ := h.table.findLinSlot a
  have hloc := h.table.cacheLoc_at hd
  refine ⟨_, hfind, probeSlot_lt (by have := hd.lt; omega) _ _, hloc, ?_⟩
  intro htlb
  rw [h.tlb a htlb, hloc]

/-- The table holds an address with a value of the map in exactly one slot. -/
theorem Inv.slot_unique {c : CodeCache} {f : RiscAddr → Option CacheLoc} (h : Inv c f)
    {a : RiscAddr} {loc : CacheLoc} (hf : f a = some loc) :
    ∃ i, i < c.tableSize ∧ c.cacheTable i = ⟨a, loc⟩ ∧
      ∀ j, j < c.tableSize → (c.cacheTable j).cacheLoc ≠ unseenCode →
        (c.cacheTable j).riscAddr = a → j = i := by
  obtain ⟨i, hi, hstored⟩ := (h.table.repr a loc).2 hf
  have hold : (c.cacheTable i).cacheLoc ≠ 0#64 := by
    intro h0
    rw [slots_eq_none h0] at hstored
    cases hstored
  obtain ⟨d, hd, hdi⟩ := h.table.placed i hi a loc hstored
  rw [slots_eq_some hold] at hstored
  refine ⟨i, hi, ?_, ?_⟩
  · cases hentry : c.cacheTable i with
    | mk a' loc' =>
        rw [hentry] at hstored
        cases hstored
        rfl
  · intro j hj hjold hja
    obtain ⟨e, he, hej⟩ := h.table.placed j hj a _ (by rw [slots_eq_some hjold, hja])
    rw [← hdi, ← hej, hd.unique he]

end Runs

/-- The code cache refines a finite map: from `init_hash_table`, every sequence of
calls returns; each lookup gives the location of the latest `set` or `UNSEEN_CODE`;
TLB and table agree; every address set is held by exactly one slot; and
`get_cache_entry_count` is the number of addresses set. -/
theorem codeCache_refines_map (ops : List CacheOp)
    (hset : ∀ a loc, CacheOp.set a loc ∈ ops → loc ≠ unseenCode) :
    ∃ c, runOps initHashTable ops = some (c, expectedLocs [] ops) ∧
      (∀ a, ∃ i, c.findLinSlot a = some i ∧ i < c.tableSize ∧
        (c.cacheTable i).cacheLoc = (latestSet ops a).getD unseenCode ∧
        ((c.tlb (smallhash a)).riscAddr = a →
          (c.tlb (smallhash a)).cacheLoc = (c.cacheTable i).cacheLoc)) ∧
      (∀ a loc, latestSet ops a = some loc → ∃ i, i < c.tableSize ∧ c.cacheTable i = ⟨a, loc⟩ ∧
        ∀ j, j < c.tableSize → (c.cacheTable j).cacheLoc ≠ unseenCode →
          (c.cacheTable j).riscAddr = a → j = i) ∧
      c.getCacheEntryCount = (setAddrs ops).card := by
  obtain ⟨c, hrun, hc⟩ := @runOps_of_inv [] ops initHashTable inv_initHashTable hset
  rw [List.nil_append] at hc
  exact ⟨c, hrun, hc.tlb_agrees, fun a loc hf => hc.slot_unique hf,
    hc.getCacheEntryCount _ (mem_setAddrs_iff ops)⟩

/-- The refinement for a sequence that sets address 0, whose TLB slot is zero-filled,
and an address that shares its TLB slot. -/
theorem codeCache_refines_map_zero_addr :
    ∃ c, runOps initHashTable [.lookup 0, .set 0 7, .set 0x100 9, .lookup 0, .lookup 0x100] =
        some (c, expectedLocs [] [.lookup 0, .set 0 7, .set 0x100 9, .lookup 0, .lookup 0x100]) ∧
      c.getCacheEntryCount = 2 := by
  obtain ⟨c, hrun, -, -, hcount⟩ := codeCache_refines_map
    [.lookup 0, .set 0 7, .set 0x100 9, .lookup 0, .lookup 0x100] (by
      intro a loc hmem
      simp only [List.mem_cons, CacheOp.set.injEq, reduceCtorEq, List.not_mem_nil] at hmem
      rcases hmem with h | ⟨-, rfl⟩ | ⟨-, rfl⟩ | h
      · exact h.elim
      · decide
      · decide
      · simp at h)
  exact ⟨c, hrun, by rw [hcount]; decide⟩

end RiaJit.CodeCache
