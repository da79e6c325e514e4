import Mathlib

/-!
# Accesses to allocated objects

A log records, newest first, where objects are allocated, touched and released. Addresses come
back after a release. `InUse` reads from the log whether there is an object at an address, and
`Legal` says that no object is touched or released when there is none and that no object is
allocated over another. In a legal log each object is released at most once, and exactly once if
it is not in use any more (`Legal.count_alloc`).
-/

namespace BroadcomWl.Lib

variable {α : Type}

inductive Access (α : Type) where
  | alloc (a : α)
  | use (a : α)
  | release (a : α)
deriving Repr, DecidableEq

/-- There is an object at `a` after the accesses of the log. -/
def InUse (a : α) : List (Access α) → Prop
  | [] => False
  | .alloc b :: log => a = b ∨ InUse a log
  | .use _ :: log => InUse a log
  | .release b :: log => a ≠ b ∧ InUse a log

/-- No object is allocated twice, and none is touched or released unless it is in use. -/
def Legal : List (Access α) → Prop
  | [] => True
  | .alloc a :: log => ¬ InUse a log ∧ Legal log
  | .use a :: log => InUse a log ∧ Legal log
  | .release a :: log => InUse a log ∧ Legal log

instance InUse.decidable [DecidableEq α] (a : α) : ∀ log : List (Access α), Decidable (InUse a log)
  | [] => isFalse id
  | .alloc _ :: log => @instDecidableOr _ _ inferInstance (InUse.decidable a log)
  | .use _ :: log => InUse.decidable a log
  | .release _ :: log => @instDecidableAnd _ _ inferInstance (InUse.decidable a log)

@[simp] theorem inUse_alloc {a b : α} {log : List (Access α)} :
    InUse a (.alloc b :: log) ↔ a = b ∨ InUse a log := Iff.rfl

@[simp] theorem inUse_use {a b : α} {log : List (Access α)} :
    InUse a (.use b :: log) ↔ InUse a log := Iff.rfl

@[simp] theorem inUse_release {a b : α} {log : List (Access α)} :
    InUse a (.release b :: log) ↔ a ≠ b ∧ InUse a log := Iff.rfl

/-- **Every object is released exactly once, or still in use.** -/
theorem Legal.count_alloc [DecidableEq α] {log : List (Access α)} (h : Legal log) (a : α) :
    log.count (.alloc a) = log.count (.release a) + if InUse a log then 1 else 0 := by
  induction log with
  | nil => simp [InUse]
  | cons x log ih =>
      cases x with
      | alloc b =>
          obtain ⟨hfree, hlog⟩ := h
          have hcount := ih hlog
          by_cases hab : a = b
          · subst hab
            rw [if_neg hfree] at hcount
            simp [hcount]
          · simp [hab, Ne.symm hab, hcount]
      | use b =>
          have hcount := ih h.2
          simp [hcount]
      | release b =>
          obtain ⟨huse, hlog⟩ := h
          have hcount := ih hlog
          by_cases hab : a = b
          · subst hab
            rw [if_pos huse] at hcount
            simp [hcount]
          · simp [hab, Ne.symm hab, hcount]

/-! ## What somebody holds -/

/-- What is allocated was not in use. This is what a user relies on. -/
def Fresh : List (Access α) → Prop
  | [] => True
  | .alloc a :: log => ¬ InUse a log ∧ Fresh log
  | .use _ :: log => Fresh log
  | .release _ :: log => Fresh log

instance Fresh.decidable [DecidableEq α] : ∀ log : List (Access α), Decidable (Fresh log)
  | [] => isTrue trivial
  | .alloc _ :: log => @instDecidableAnd _ _ inferInstance (Fresh.decidable log)
  | .use _ :: log => Fresh.decidable log
  | .release _ :: log => Fresh.decidable log

instance Legal.decidable [DecidableEq α] : ∀ log : List (Access α), Decidable (Legal log)
  | [] => isTrue trivial
  | .alloc _ :: log => @instDecidableAnd _ _ inferInstance (Legal.decidable log)
  | .use _ :: log => @instDecidableAnd _ _ inferInstance (Legal.decidable log)
  | .release _ :: log => @instDecidableAnd _ _ inferInstance (Legal.decidable log)

/-- The log is legal, and the objects of `M` are different ones that are in use: whoever holds `M`
may touch and release them. All this as far as new objects are fresh. -/
def Held (M : Multiset α) (log : List (Access α)) : Prop :=
  Fresh log → Legal log ∧ M.Nodup ∧ ∀ a ∈ M, InUse a log

section

variable {M N : Multiset α} {a : α} {log : List (Access α)}

theorem Held.nil : Held (0 : Multiset α) [] := fun _ => ⟨trivial, Multiset.nodup_zero, by simp⟩

theorem Held.alloc (h : Held M log) : Held (a ::ₘ M) (.alloc a :: log) := fun hfresh => by
  obtain ⟨hlegal, hnodup, huse⟩ := h hfresh.2
  refine ⟨⟨hfresh.1, hlegal⟩, Multiset.nodup_cons.mpr ⟨fun ha => hfresh.1 (huse a ha), hnodup⟩,
    fun b hb => ?_⟩
  cases Multiset.mem_cons.mp hb with
  | inl heq => exact .inl heq
  | inr hb => exact .inr (huse b hb)

theorem Held.use (h : Held M log) (ha : a ∈ M) : Held M (.use a :: log) := fun hfresh => by
  obtain ⟨hlegal, hnodup, huse⟩ := h hfresh
  exact ⟨⟨huse a ha, hlegal⟩, hnodup, huse⟩

theorem Held.release (h : Held (a ::ₘ M) log) : Held M (.release a :: log) := fun hfresh => by
  obtain ⟨hlegal, hnodup, huse⟩ := h hfresh
  obtain ⟨ha, hnodup⟩ := Multiset.nodup_cons.mp hnodup
  refine ⟨⟨huse a (Multiset.mem_cons_self a M), hlegal⟩, hnodup, fun b hb => ⟨?_, ?_⟩⟩
  · rintro rfl
    exact ha hb
  · exact huse b (Multiset.mem_cons_of_mem hb)

theorem Held.mono (h : Held M log) (hle : N ≤ M) : Held N log := fun hfresh => by
  obtain ⟨hlegal, hnodup, huse⟩ := h hfresh
  exact ⟨hlegal, Multiset.nodup_of_le hle hnodup, fun a ha => huse a (Multiset.mem_of_le hle ha)⟩

theorem Held.uses (h : Held M log) {l : List α} (hl : ∀ a ∈ l, a ∈ M) :
    Held M (l.map .use ++ log) := by
  induction l with
  | nil => exact h
  | cons a l ih =>
      exact (ih fun b hb => hl b (List.mem_cons_of_mem a hb)).use (hl a List.mem_cons_self)

end

end BroadcomWl.Lib
