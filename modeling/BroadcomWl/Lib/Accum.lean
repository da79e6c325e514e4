import Mathlib.Order.Bounds.Basic
import Mathlib.Data.Set.Insert

/-!
# Accumulators

A store with a value for each key is filled from a list of items. An item has a key, or none, and
contributes a value: the first item of a key overwrites what is stored there, and each later one is
joined to it.

In the end the value of a key is the least upper bound of the contributions of its items
(`After.foldl`), so the order in which they come makes no difference. -/

namespace BroadcomWl.Lib

variable {ι κ α : Type*}

/-- The store, and the keys that have been written. -/
structure Accum (κ α : Type*) where
  seen : Set κ
  val : κ → α

namespace Accum

/-! ## Contributions -/

section

variable (key : ι → Option κ) (part : ι → α)

/-- What the items of a key contribute. -/
def parts (l : List ι) (k : κ) : Set α := {x | ∃ i ∈ l, key i = some k ∧ part i = x}

variable {key part} {l : List ι}

theorem parts_concat_of_ne {i : ι} {k : κ} (hkey : key i ≠ some k) :
    parts key part (l ++ [i]) k = parts key part l k := by
  ext x
  constructor
  · rintro ⟨j, hj, hkj, hx⟩
    rcases List.mem_append.mp hj with hj | hj
    · exact ⟨j, hj, hkj, hx⟩
    · exact absurd (List.mem_singleton.mp hj ▸ hkj) hkey
  · rintro ⟨j, hj, hx⟩
    exact ⟨j, List.mem_append_left _ hj, hx⟩

theorem parts_concat_self {i : ι} {k : κ} (hkey : key i = some k) :
    parts key part (l ++ [i]) k = insert (part i) (parts key part l k) := by
  ext x
  constructor
  · rintro ⟨j, hj, hkj, hx⟩
    rcases List.mem_append.mp hj with hj | hj
    · exact .inr ⟨j, hj, hkj, hx⟩
    · exact .inl (by rw [← hx, List.mem_singleton.mp hj])
  · rintro (rfl | ⟨j, hj, hx⟩)
    · exact ⟨i, List.mem_append_right _ (List.mem_singleton_self i), hkey, rfl⟩
    · exact ⟨j, List.mem_append_left _ hj, hx⟩

end

/-! ## Items -/

section

variable [SemilatticeSup α] (key : ι → Option κ) (part : ι → α)

open Classical in
/-- One item. -/
noncomputable def visit (a : Accum κ α) (i : ι) : Accum κ α :=
  match key i with
  | none => a
  | some k =>
    ⟨insert k a.seen, Function.update a.val k (if k ∈ a.seen then a.val k ⊔ part i else part i)⟩

/-- What is there after the items of `l`. -/
structure After (l : List ι) (val₀ : κ → α) (a : Accum κ α) : Prop where
  seen : ∀ k, k ∈ a.seen ↔ ∃ i ∈ l, key i = some k
  lub : ∀ k ∈ a.seen, IsLUB (parts key part l k) (a.val k)
  kept : ∀ k, k ∉ a.seen → a.val k = val₀ k

variable {key part} {l : List ι} {val₀ : κ → α} {a : Accum κ α}

theorem visit_none {i : ι} (hkey : key i = none) : visit key part a i = a := by
  unfold visit
  rw [hkey]

theorem mem_visit {i : ι} {k : κ} (hkey : key i = some k) {k' : κ} :
    k' ∈ (visit key part a i).seen ↔ k' = k ∨ k' ∈ a.seen := by
  unfold visit
  rw [hkey]
  exact Set.mem_insert_iff

theorem visit_first {i : ι} {k : κ} (hkey : key i = some k) (hk : k ∉ a.seen) :
    (visit key part a i).val k = part i := by
  classical
  unfold visit
  rw [hkey]
  dsimp only
  rw [Function.update_self, if_neg hk]

theorem visit_again {i : ι} {k : κ} (hkey : key i = some k) (hk : k ∈ a.seen) :
    (visit key part a i).val k = a.val k ⊔ part i := by
  classical
  unfold visit
  rw [hkey]
  dsimp only
  rw [Function.update_self, if_pos hk]

theorem visit_of_ne {i : ι} {k k' : κ} (hkey : key i = some k) (hne : k' ≠ k) :
    (visit key part a i).val k' = a.val k' := by
  classical
  unfold visit
  rw [hkey]
  exact Function.update_of_ne hne _ _

theorem After.nil (key : ι → Option κ) (part : ι → α) (val₀ : κ → α) :
    After key part [] val₀ ⟨∅, val₀⟩ where
  seen k := by simp
  lub k hk := absurd hk (Set.notMem_empty k)
  kept _ _ := rfl

theorem After.parts_empty (h : After key part l val₀ a) {k : κ} (hk : k ∉ a.seen) :
    parts key part l k = ∅ := by
  rw [Set.eq_empty_iff_forall_notMem]
  rintro x ⟨i, hi, hkey, -⟩
  exact hk ((h.seen k).mpr ⟨i, hi, hkey⟩)

/-- **Step lemma.** The value of the key of an item stays the least upper bound, whether it is
overwritten or joined to. -/
theorem After.visit (h : After key part l val₀ a) (i : ι) :
    After key part (l ++ [i]) val₀ (visit key part a i) := by
  cases hkey : key i with
  | none =>
    have hne (k : κ) : key i ≠ some k := by simp [hkey]
    rw [visit_none hkey]
    refine ⟨fun k => ?_, fun k hk => ?_, h.kept⟩
    · rw [h.seen k]
      simp [hkey]
    · rw [parts_concat_of_ne (hne k)]
      exact h.lub k hk
  | some k =>
    have hseen (k' : κ) : k' ∈ (Accum.visit key part a i).seen ↔ k' = k ∨ k' ∈ a.seen :=
      mem_visit hkey
    refine ⟨fun k' => ?_, fun k' hk' => ?_, fun k' hk' => ?_⟩
    · rw [hseen, h.seen k']
      simp only [List.mem_append, List.mem_singleton, or_and_right, exists_or, exists_eq_left, hkey,
        Option.some.injEq]
      rw [or_comm, eq_comm (a := k')]
    · by_cases heq : k' = k
      · subst heq
        rw [parts_concat_self hkey]
        by_cases hk : k' ∈ a.seen
        · rw [visit_again hkey hk, sup_comm]
          exact (h.lub k' hk).insert (part i)
        · rw [visit_first hkey hk, h.parts_empty hk]
          simp
      · have hne : key i ≠ some k' := by
          rw [hkey]
          exact fun heq' => heq (Option.some.inj heq').symm
        rw [visit_of_ne hkey heq, parts_concat_of_ne hne]
        exact h.lub k' (((hseen k').mp hk').resolve_left heq)
    · rw [hseen, not_or] at hk'
      rw [visit_of_ne hkey hk'.1]
      exact h.kept k' hk'.2

/-- **Run lemma.** -/
theorem After.foldl (h : After key part l val₀ a) (l' : List ι) :
    After key part (l ++ l') val₀ (l'.foldl (Accum.visit key part) a) := by
  induction l' generalizing l a with
  | nil => rwa [List.append_nil]
  | cons i l' ih =>
    have hrest := ih (h.visit i)
    rwa [List.append_assoc, List.singleton_append] at hrest

end

end Accum

end BroadcomWl.Lib
