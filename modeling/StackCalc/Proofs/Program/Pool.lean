import Mathlib
import StackCalc.Program.Builder

/-!
# Pools of constants

A pool grows by the constants that are met.  Each word gets one slot, where it is first met, and
keeps it however the pool grows.

The slots of the constants, in the order in which the constants are met, are therefore first used
in ascending order, and none is left out.  Conversely, a pool without duplicates whose slots are
used in this way is the one that grows from the constants in the slots.
-/

namespace StackCalc

/-- A pool in which a constant has a slot. -/
def pooled (pool : List Binary64) (value : Binary64) : List Binary64 :=
  if value ∈ pool then pool else pool ++ [value]

variable {pool longer values : List Binary64} {value : Binary64}

/-! ## Growing pools -/

theorem prefix_pooled (pool : List Binary64) (value : Binary64) : pool <+: pooled pool value := by
  unfold pooled
  split
  · exact List.prefix_refl pool
  · exact List.prefix_append pool [value]

theorem mem_pooled {other : Binary64} :
    other ∈ pooled pool value ↔ other ∈ pool ∨ other = value := by
  unfold pooled
  split
  · constructor
    · exact Or.inl
    · rintro (hold | rfl)
      · exact hold
      · assumption
  · simp

theorem mem_pooled_self (pool : List Binary64) (value : Binary64) :
    value ∈ pooled pool value :=
  mem_pooled.mpr (Or.inr rfl)

theorem nodup_pooled (h : pool.Nodup) (value : Binary64) : (pooled pool value).Nodup := by
  unfold pooled
  split
  · exact h
  · next hnew => simpa using h.concat hnew

theorem prefix_foldl_pooled (pool values : List Binary64) :
    pool <+: values.foldl pooled pool := by
  induction values generalizing pool with
  | nil => exact List.prefix_refl pool
  | cons value values ih => exact (prefix_pooled pool value).trans (ih (pooled pool value))

/-- A pool that has grown has slots for what it held and for what was met, and for nothing else. -/
theorem mem_foldl_pooled_iff :
    value ∈ values.foldl pooled pool ↔ value ∈ pool ∨ value ∈ values := by
  induction values generalizing pool with
  | nil => simp
  | cons first rest ih => rw [List.foldl_cons, ih, mem_pooled, List.mem_cons, or_assoc]

theorem mem_foldl_pooled
    {value : Binary64} {values : List Binary64} (h : value ∈ values) (pool : List Binary64) :
    value ∈ values.foldl pooled pool :=
  mem_foldl_pooled_iff.mpr (Or.inr h)

theorem nodup_foldl_pooled (h : pool.Nodup) (values : List Binary64) :
    (values.foldl pooled pool).Nodup := by
  induction values generalizing pool with
  | nil => exact h
  | cons value values ih => exact ih (nodup_pooled h value)

theorem idxOf_eq_of_prefix
    {pool longer : List Binary64} (h : pool <+: longer) {value : Binary64}
    (hmem : value ∈ pool) :
    longer.idxOf value = pool.idxOf value := by
  obtain ⟨rest, rfl⟩ := h
  exact List.idxOf_append_of_mem hmem

theorem idxOf_pooled_le (pool : List Binary64) (value : Binary64) :
    (pooled pool value).idxOf value ≤ pool.length := by
  unfold pooled
  split
  · exact List.idxOf_le_length
  · next hnew => simp [List.idxOf_append, hnew]

theorem length_pooled_le (pool : List Binary64) (value : Binary64) :
    (pooled pool value).length ≤ pool.length + 1 := by
  unfold pooled
  split <;> simp

theorem getElem?_idxOf_pooled (pool : List Binary64) (value : Binary64) (rest : List Binary64) :
    (pooled pool value ++ rest)[(pooled pool value).idxOf value]? = some value := by
  have hslot := List.idxOf_lt_length_of_mem (mem_pooled_self pool value)
  rw [List.getElem?_append_left hslot, List.getElem?_eq_getElem hslot, List.getElem_idxOf hslot]

/-- Interning a constant adds it to the pool and gives its slot. -/
theorem Builder.addConstant_eq (b : Builder) (value : Binary64) :
    b.addConstant value =
      ((pooled b.constants value).idxOf value,
        { b with constants := pooled b.constants value }) := by
  unfold Builder.addConstant pooled
  cases hslot : b.constants.idxOf? value with
  | none =>
      have hnew : value ∉ b.constants := List.idxOf?_eq_none_iff.mp hslot
      rw [if_neg hnew, List.idxOf_append, if_neg hnew]
      simp
  | some index =>
      have hmem : value ∈ b.constants := by
        rw [← List.isSome_idxOf?, hslot]
        rfl
      have hindex : b.constants.idxOf value = index := by
        rw [List.idxOf_eq_getD_idxOf?, hslot]
        rfl
      rw [if_pos hmem, hindex]

/-! ## The order of first uses -/

/-- The slots below `count` are first used in ascending order, and none is left out. -/
structure FirstUseOrder (count : Nat) (slots : List Nat) : Prop where
  used : ∀ slot < count, slot ∈ slots
  ascending : ∀ front slot back, slots = front ++ slot :: back →
    ∀ earlier < slot, earlier ∈ front

theorem firstUseOrder_foldl_pooled (values : List Binary64) :
    FirstUseOrder (values.foldl pooled []).length
      (values.map (values.foldl pooled []).idxOf) := by
  constructor
  · intro slot hslot
    have hmem : (values.foldl pooled [])[slot] ∈ values.foldl pooled [] := List.getElem_mem hslot
    have hvalue : (values.foldl pooled [])[slot] ∈ values := by
      simpa using mem_foldl_pooled_iff.mp hmem
    have hindex := (nodup_foldl_pooled List.nodup_nil values).idxOf_getElem slot hslot
    exact List.mem_map.mpr ⟨_, hvalue, hindex⟩
  · intro front slot back hsplit earlier hearlier
    obtain ⟨valuesFront, valuesBack, rfl, rfl, hback⟩ := List.map_eq_append_iff.mp hsplit
    obtain ⟨value, valuesRest, rfl, rfl, -⟩ := List.map_eq_cons_iff.mp hback
    -- The pool before the constant is met has a slot for everything that comes earlier.
    generalize hpool : (valuesFront ++ value :: valuesRest).foldl pooled [] = pool at hearlier ⊢
    rw [List.foldl_append, List.foldl_cons] at hpool
    have hgrown : pooled (valuesFront.foldl pooled []) value <+: pool :=
      hpool ▸ prefix_foldl_pooled _ valuesRest
    have hslot := idxOf_eq_of_prefix hgrown (mem_pooled_self _ value)
    have hle := idxOf_pooled_le (valuesFront.foldl pooled []) value
    have hlt : earlier < (valuesFront.foldl pooled []).length := by omega
    have hmem : (valuesFront.foldl pooled [])[earlier] ∈ valuesFront.foldl pooled [] :=
      List.getElem_mem hlt
    have hvalue : (valuesFront.foldl pooled [])[earlier] ∈ valuesFront := by
      simpa using mem_foldl_pooled_iff.mp hmem
    have hkept := idxOf_eq_of_prefix ((prefix_pooled _ value).trans hgrown) hmem
    have hindex := (nodup_foldl_pooled List.nodup_nil valuesFront).idxOf_getElem earlier hlt
    exact List.mem_map.mpr ⟨_, hvalue, hkept.trans hindex⟩

/-- After some uses in ascending order, the pool that grows from them is the part of a pool without
duplicates that holds the used slots. -/
theorem foldl_pooled_eq_take
    (hnodup : pool.Nodup) {slots : List Nat} (hslots : ∀ slot ∈ slots, slot < pool.length)
    (hascending : ∀ front slot back, slots = front ++ slot :: back →
      ∀ earlier < slot, earlier ∈ front) :
    ∃ count, (slots.filterMap (pool[·]?)).foldl pooled [] = pool.take count ∧
      ∀ slot, slot ∈ slots ↔ slot < count := by
  induction slots using List.reverseRecOn with
  | nil => exact ⟨0, by simp⟩
  | append_singleton slots slot ih =>
      rw [List.forall_mem_append, List.forall_mem_singleton] at hslots
      obtain ⟨hfront, hslot⟩ := hslots
      obtain ⟨count, hfold, hused⟩ := ih hfront fun front earlier back hsplit =>
        hascending front earlier (back ++ [slot]) (by simp [hsplit])
      have hlast : (slots ++ [slot]).filterMap (pool[·]?) =
          slots.filterMap (pool[·]?) ++ [pool[slot]] := by
        simp [List.getElem?_eq_getElem hslot]
      rw [hlast, List.foldl_append, hfold, List.foldl_cons, List.foldl_nil, pooled]
      by_cases hold : slot < count
      · have hmem : pool[slot] ∈ pool.take count :=
          List.mem_take_iff_getElem.mpr ⟨slot, by omega, rfl⟩
        refine ⟨count, if_pos hmem, ?_⟩
        intro other
        rw [List.mem_append, hused, List.mem_singleton]
        omega
      · have hle : slot ≤ count := by
          by_contra hgap
          have hskipped := hascending slots slot [] rfl count (by omega)
          exact absurd ((hused count).mp hskipped) (lt_irrefl count)
        have hnext : slot = count := by omega
        subst hnext
        have hnew : pool[slot] ∉ pool.take slot := by
          intro hmem
          obtain ⟨other, hother, hsame⟩ := List.mem_take_iff_getElem.mp hmem
          have hindex : other = slot := hnodup.getElem_inj_iff.mp hsame
          omega
        refine ⟨slot + 1, ?_, ?_⟩
        · rw [if_neg hnew, List.take_append_getElem hslot]
        · intro other
          rw [List.mem_append, hused, List.mem_singleton]
          omega

/-- A pool without duplicates whose slots are used in ascending order, with none left out, grows
from its uses. -/
theorem FirstUseOrder.foldl_pooled
    (hnodup : pool.Nodup) {slots : List Nat} (hslots : ∀ slot ∈ slots, slot < pool.length)
    (h : FirstUseOrder pool.length slots) :
    (slots.filterMap (pool[·]?)).foldl pooled [] = pool := by
  obtain ⟨count, hfold, hused⟩ := foldl_pooled_eq_take hnodup hslots h.ascending
  have hall : pool.length ≤ count := by
    by_contra hshort
    have hmem := h.used count (by omega)
    exact absurd ((hused count).mp hmem) (lt_irrefl count)
  rw [hfold, List.take_of_length_le hall]

end StackCalc
