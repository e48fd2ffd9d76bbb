import Mathlib.Data.Finset.Card
import Mathlib.Data.Finset.Option
import Mathlib.Data.Finset.Union
import Mathlib.Data.Nat.Find
import Mathlib.Logic.Function.Basic

/-!
# Linear probing tables

A table of `m` slots stores at most one key-value pair per slot. A key `k` is
searched from its home slot, cyclically, up to the first slot that is free or
holds `k` (`FirstEnd`). The module gives the invariant that makes this search
exact (`WellPlaced`), the finite map that a table represents (`Represents`), and
the effect of storing a pair at the end of a search on both.

The number of occupied slots is counted (`occupied`); a table with a free slot
ends every search (`exists_firstEnd`).
-/

set_option autoImplicit false

namespace LinearProbing

universe u v

variable {K : Type u} {V : Type v}

/-- Slot contents of a table; only the slots below the table size are used. -/
abbrev Slots (K : Type u) (V : Type v) := Nat → Option (K × V)

/-- A search for `k` ends at slot `i`: the slot is free or holds `k`. -/
def Ends (slots : Slots K V) (k : K) (i : Nat) : Prop :=
  ∀ p, slots i = some p → p.1 = k

/-- The slot inspected after `d` cyclic steps from `i`. -/
def probeSlot (m i d : Nat) : Nat := (i + d) % m

/-- The search for `k` from slot `i` takes exactly `d` steps, fewer than the
table has slots. -/
structure FirstEnd (m : Nat) (slots : Slots K V) (k : K) (i d : Nat) : Prop where
  lt : d < m
  ends : Ends slots k (probeSlot m i d)
  before : ∀ e, e < d → ¬ Ends slots k (probeSlot m i e)

/-- Every stored key is found by its own search. -/
def WellPlaced (m : Nat) (home : K → Nat) (slots : Slots K V) : Prop :=
  ∀ i, i < m → ∀ k v, slots i = some (k, v) →
    ∃ d, FirstEnd m slots k (home k) d ∧ probeSlot m (home k) d = i

/-- The table stores exactly the pairs of the map `f`. -/
def Represents (m : Nat) (slots : Slots K V) (f : K → Option V) : Prop :=
  ∀ k v, (∃ i, i < m ∧ slots i = some (k, v)) ↔ f k = some v

/-- The occupied slots of a table. -/
def occupied (m : Nat) (slots : Slots K V) : Finset Nat :=
  (Finset.range m).filter fun i => (slots i).isSome

theorem probeSlot_lt {m : Nat} (hm : 0 < m) (i d : Nat) : probeSlot m i d < m :=
  Nat.mod_lt _ hm

theorem probeSlot_succ (m i d : Nat) :
    probeSlot m ((i + 1) % m) d = probeSlot m i (d + 1) := by
  unfold probeSlot
  rw [Nat.mod_add_mod]
  congr 1
  omega

theorem probeSlot_zero {m i : Nat} (hi : i < m) : probeSlot m i 0 = i := by
  simp [probeSlot, Nat.mod_eq_of_lt hi]

/-- Two searches for one key from one slot end after the same number of steps. -/
theorem FirstEnd.unique {m : Nat} {slots : Slots K V} {k : K} {i d e : Nat}
    (hd : FirstEnd m slots k i d) (he : FirstEnd m slots k i e) : d = e := by
  rcases Nat.lt_trichotomy d e with hlt | heq | hgt
  · exact absurd hd.ends (he.before d hlt)
  · exact heq
  · exact absurd he.ends (hd.before e hgt)

/-- The rest of a search after its first step. -/
theorem FirstEnd.tail {m : Nat} {slots : Slots K V} {k : K} {i d : Nat}
    (h : FirstEnd m slots k i (d + 1)) : FirstEnd m slots k ((i + 1) % m) d := by
  refine ⟨Nat.lt_of_succ_lt h.lt, ?_, ?_⟩
  · rw [probeSlot_succ]
    exact h.ends
  · intro e he
    rw [probeSlot_succ]
    exact h.before (e + 1) (Nat.succ_lt_succ he)

/-- A search ends when some slot is free. -/
theorem exists_firstEnd {m : Nat} {slots : Slots K V} {j : Nat} (hj : j < m)
    (hfree : slots j = none) (k : K) (i : Nat) (hi : i < m) :
    ∃ d, FirstEnd m slots k i d := by
  classical
  have hreach : probeSlot m i ((j + m - i) % m) = j := by
    unfold probeSlot
    rw [Nat.add_mod_mod]
    have e : i + (j + m - i) = j + m := by omega
    rw [e, Nat.add_mod_right, Nat.mod_eq_of_lt hj]
  have hex : ∃ d, Ends slots k (probeSlot m i d) := by
    refine ⟨(j + m - i) % m, ?_⟩
    intro p hp
    rw [hreach, hfree] at hp
    cases hp
  refine ⟨Nat.find hex, ?_, Nat.find_spec hex, fun e he => Nat.find_min hex he⟩
  refine Nat.lt_of_le_of_lt (Nat.find_min' hex ?_) (Nat.mod_lt (j + m - i) (by omega))
  intro p hp
  rw [hreach, hfree] at hp
  cases hp

/-- Fewer occupied slots than slots leave a free one. -/
theorem exists_free {m : Nat} {slots : Slots K V} (h : (occupied m slots).card < m) :
    ∃ j, j < m ∧ slots j = none := by
  by_contra hno
  push Not at hno
  have hall : occupied m slots = Finset.range m := by
    refine Finset.filter_true_of_mem ?_
    intro j hj
    exact Option.isSome_iff_ne_none.2 (hno j (Finset.mem_range.1 hj))
  rw [hall, Finset.card_range] at h
  exact Nat.lt_irrefl m h

/-- The slot at which a search ends holds exactly the represented value. -/
theorem Represents.at_firstEnd {m : Nat} {home : K → Nat} {slots : Slots K V}
    {f : K → Option V} {k : K} {d : Nat} (hw : WellPlaced m home slots)
    (hr : Represents m slots f) (he : FirstEnd m slots k (home k) d) :
    (slots (probeSlot m (home k) d)).map Prod.snd = f k := by
  have hm : 0 < m := Nat.lt_of_le_of_lt (Nat.zero_le d) he.lt
  cases hs : slots (probeSlot m (home k) d) with
  | some p =>
      have hk : p.1 = k := he.ends p hs
      have hstored : slots (probeSlot m (home k) d) = some (k, p.2) := by
        rw [hs, ← hk]
      have hfk : f k = some p.2 := (hr k p.2).1 ⟨_, probeSlot_lt hm _ _, hstored⟩
      simp [hfk]
  | none =>
      cases hf : f k with
      | none => rfl
      | some v =>
          obtain ⟨i, hi, hstored⟩ := (hr k v).2 hf
          obtain ⟨e, hfe, hslot⟩ := hw i hi k v hstored
          have hde : e = d := hfe.unique he
          subst hde
          rw [hslot, hstored] at hs
          cases hs

section Store

variable [DecidableEq K] {m : Nat} {home : K → Nat} {slots : Slots K V} {k : K} {d : Nat}

omit [DecidableEq K] in
/-- A slot that does not end the search for another key does not end it after a
store either. -/
theorem not_ends_store {k' : K} {i j : Nat} {v : V} (hne : k' ≠ k)
    (hocc : ¬ Ends slots k' j) :
    ¬ Ends (Function.update slots i (some (k, v))) k' j := by
  intro hends
  by_cases hji : j = i
  · subst hji
    exact hne (hends (k, v) (Function.update_self ..)).symm
  · apply hocc
    intro p hp
    exact hends p (by rw [Function.update_of_ne hji, hp])

/-- Storing a pair at the end of its search keeps every stored key findable. -/
theorem WellPlaced.store (hw : WellPlaced m home slots)
    (he : FirstEnd m slots k (home k) d) (v : V) :
    WellPlaced m home
      (Function.update slots (probeSlot m (home k) d) (some (k, v))) := by
  intro i hi k' v' hstored
  by_cases hk : k' = k
  · -- the key of the pair: an older pair with it would be at the same end of the search
    subst hk
    refine ⟨d, ⟨he.lt, ?_, ?_⟩, ?_⟩
    · intro p hp
      rw [Function.update_self] at hp
      cases hp
      rfl
    · intro e hlt hends
      refine he.before e hlt ?_
      intro p hp
      by_cases hslot : probeSlot m (home k') e = probeSlot m (home k') d
      · rw [hslot] at hp
        exact he.ends p hp
      · exact hends p (by rw [Function.update_of_ne hslot, hp])
    · by_contra hne
      have hold : slots i = some (k', v') := by
        rwa [Function.update_of_ne (Ne.symm hne)] at hstored
      obtain ⟨e, hfe, hslot⟩ := hw i hi k' v' hold
      have hde : e = d := hfe.unique he
      subst hde
      exact hne hslot
  · -- another key: an occupied slot does not end a search that it did not end before
    have hne : i ≠ probeSlot m (home k) d := by
      intro heq
      rw [heq, Function.update_self] at hstored
      cases hstored
      exact hk rfl
    have hold : slots i = some (k', v') := by
      rwa [Function.update_of_ne hne] at hstored
    obtain ⟨e, hfe, hslot⟩ := hw i hi k' v' hold
    refine ⟨e, ⟨hfe.lt, ?_, ?_⟩, hslot⟩
    · intro p hp
      rw [hslot] at hp
      rw [hp] at hstored
      cases hstored
      rfl
    · intro e' hlt
      exact not_ends_store hk (hfe.before e' hlt)

/-- Storing a pair at the end of its search updates the represented map. -/
theorem Represents.store {f : K → Option V} (hw : WellPlaced m home slots)
    (hr : Represents m slots f) (he : FirstEnd m slots k (home k) d) (v : V) :
    Represents m (Function.update slots (probeSlot m (home k) d) (some (k, v)))
      (Function.update f k (some v)) := by
  have hm : 0 < m := Nat.lt_of_le_of_lt (Nat.zero_le d) he.lt
  intro k' v'
  by_cases hk : k' = k
  · subst hk
    rw [Function.update_self]
    -- the stored pair is at the only end of its key's search
    constructor
    · rintro ⟨i, hi, hstored⟩
      obtain ⟨e, hfe, hslot⟩ := hw.store he v i hi k' v' hstored
      obtain ⟨e', hfe', hslot'⟩ := hw.store he v _ (probeSlot_lt hm _ d) k' v
        (Function.update_self ..)
      have hee : e = e' := hfe.unique hfe'
      subst hee
      rw [← hslot, hslot', Function.update_self] at hstored
      cases hstored
      rfl
    · intro hv
      cases hv
      exact ⟨_, probeSlot_lt hm _ d, Function.update_self ..⟩
  · -- another key: the slot holds no pair of it, before or after
    rw [Function.update_of_ne hk]
    rw [← hr k' v']
    constructor
    · rintro ⟨i, hi, hstored⟩
      refine ⟨i, hi, ?_⟩
      by_cases hslot : i = probeSlot m (home k) d
      · rw [hslot, Function.update_self] at hstored
        cases hstored
        exact absurd rfl hk
      · rwa [Function.update_of_ne hslot] at hstored
    · rintro ⟨i, hi, hstored⟩
      refine ⟨i, hi, ?_⟩
      have hslot : i ≠ probeSlot m (home k) d := by
        intro heq
        rw [heq] at hstored
        exact hk (he.ends _ hstored)
      rwa [Function.update_of_ne hslot]

end Store

/-- Overwriting an occupied slot keeps the number of occupied slots. -/
theorem card_occupied_update_some {m : Nat} {slots : Slots K V} {i : Nat} {p q : K × V}
    (hp : slots i = some p) :
    (occupied m (Function.update slots i (some q))).card = (occupied m slots).card := by
  congr 1
  refine Finset.filter_congr ?_
  intro j _
  by_cases hji : j = i
  · subst hji
    rw [Function.update_self, hp]
    simp
  · rw [Function.update_of_ne hji]

/-- Filling a free slot raises the number of occupied slots by one. -/
theorem card_occupied_update_none {m : Nat} {slots : Slots K V} {i : Nat} {q : K × V}
    (hi : i < m) (hfree : slots i = none) :
    (occupied m (Function.update slots i (some q))).card = (occupied m slots).card + 1 := by
  classical
  have hins : occupied m (Function.update slots i (some q)) = insert i (occupied m slots) := by
    ext j
    simp only [occupied, Finset.mem_filter, Finset.mem_range, Finset.mem_insert]
    by_cases hji : j = i
    · subst hji
      simp [hi]
    · rw [Function.update_of_ne hji]
      simp [hji]
  rw [hins, Finset.card_insert_of_notMem]
  simp [occupied, hfree]

/-- A table holds every key once: it has as many occupied slots as the represented
map has keys. -/
theorem Represents.card_occupied {m : Nat} {home : K → Nat} {slots : Slots K V}
    {f : K → Option V} (hw : WellPlaced m home slots) (hr : Represents m slots f)
    (D : Finset K) (hD : ∀ k, k ∈ D ↔ (f k).isSome) : (occupied m slots).card = D.card := by
  have hocc : ∀ i ∈ occupied m slots, ∃ p, slots i = some p ∧ i < m := by
    intro i hi
    obtain ⟨hlt, hsome⟩ := Finset.mem_filter.1 hi
    obtain ⟨p, hp⟩ := Option.isSome_iff_exists.1 hsome
    exact ⟨p, hp, Finset.mem_range.1 hlt⟩
  refine Finset.card_bij (fun i hi => ((slots i).get (Finset.mem_filter.1 hi).2).1) ?_ ?_ ?_
  · intro i hi
    obtain ⟨p, hp, hlt⟩ := hocc i hi
    have hf : f p.1 = some p.2 := (hr p.1 p.2).1 ⟨i, hlt, hp⟩
    simp [hD, hp, hf]
  · intro i hi j hj hij
    obtain ⟨p, hp, hi'⟩ := hocc i hi
    obtain ⟨q, hq, hj'⟩ := hocc j hj
    have hkey : p.1 = q.1 := by simpa [hp, hq] using hij
    obtain ⟨d, hd, hdi⟩ := hw i hi' p.1 p.2 hp
    obtain ⟨e, he, hej⟩ := hw j hj' q.1 q.2 hq
    rw [hkey] at hd hdi
    rw [← hdi, ← hej, hd.unique he]
  · intro k hk
    obtain ⟨v, hv⟩ := Option.isSome_iff_exists.1 ((hD k).1 hk)
    obtain ⟨i, hi, hstored⟩ := (hr k v).2 hv
    refine ⟨i, ?_, ?_⟩
    · exact Finset.mem_filter.2 ⟨Finset.mem_range.2 hi, by simp [hstored]⟩
    · simp [hstored]

/-- The keys of a represented map form a finite set. -/
theorem Represents.exists_domain [DecidableEq K] {m : Nat} {slots : Slots K V}
    {f : K → Option V} (hr : Represents m slots f) :
    ∃ D : Finset K, ∀ k, k ∈ D ↔ (f k).isSome := by
  refine ⟨(Finset.range m).biUnion fun i => (slots i).toFinset.image Prod.fst, ?_⟩
  intro k
  rw [Option.isSome_iff_exists]
  simp only [Finset.mem_biUnion, Finset.mem_range, Finset.mem_image, Option.mem_toFinset,
    Option.mem_def]
  constructor
  · rintro ⟨i, hi, ⟨k', v⟩, hstored, rfl⟩
    exact ⟨v, (hr k' v).1 ⟨i, hi, hstored⟩⟩
  · rintro ⟨v, hv⟩
    obtain ⟨i, hi, hstored⟩ := (hr k v).2 hv
    exact ⟨i, hi, (k, v), hstored, rfl⟩

section Empty

/-- The table without pairs. -/
def emptySlots : Slots K V := fun _ => none

theorem wellPlaced_empty (m : Nat) (home : K → Nat) :
    WellPlaced m home (emptySlots : Slots K V) := by
  intro i _ k v hstored
  cases hstored

theorem represents_empty (m : Nat) :
    Represents m (emptySlots : Slots K V) fun _ => none := by
  intro k v
  simp [emptySlots]

theorem occupied_empty (m : Nat) : occupied m (emptySlots : Slots K V) = ∅ := by
  simp [occupied, emptySlots]

end Empty

end LinearProbing
