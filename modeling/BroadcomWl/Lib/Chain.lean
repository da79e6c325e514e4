import Mathlib

/-!
# Singly linked chains

Cells are threaded into chains by a map `next`, with `none` for NULL. `IsChain next p l` says that
the chain from `p` is `l`, so it ends; `walk` is a loop over a chain, and `unlink` takes a cell out
of one by searching its predecessor. A loop over an endless chain does not end: the loops have fuel,
and answer `none` when it is used up. On a chain of at most `n` cells fuel `n` is enough (`walk_eq`,
`IsChain.unlink`). -/

namespace BroadcomWl.Lib

variable {α : Type}

/-- The cells from `p` on are those of the list. -/
def IsChain (next : α → Option α) : Option α → List α → Prop
  | none, [] => True
  | some a, b :: l => a = b ∧ IsChain next (next a) l
  | _, _ => False

/-- Go along a chain to the first cell that satisfies `stop`. -/
def walk (next : α → Option α) (stop : α → Bool) : Nat → Option α → Option (Option α)
  | _, none => some none
  | 0, some _ => none
  | n + 1, some a => if stop a then some (some a) else walk next stop n (next a)

section

variable {next : α → Option α} {p : Option α} {l : List α}

@[simp] theorem isChain_nil : IsChain next p [] ↔ p = none := by
  cases p with
  | none => exact iff_of_true trivial rfl
  | some a => exact iff_of_false id (Option.some_ne_none a)

theorem isChain_cons {a : α} : IsChain next p (a :: l) ↔ p = some a ∧ IsChain next (next a) l := by
  cases p with
  | none => exact iff_of_false id fun h => Option.some_ne_none a h.1.symm
  | some b =>
      constructor
      · rintro ⟨rfl, htail⟩
        exact ⟨rfl, htail⟩
      · rintro ⟨hb, htail⟩
        cases hb
        exact ⟨rfl, htail⟩

/-- **A loop over a chain finds what there is.** -/
theorem walk_eq (stop : α → Bool) {n : Nat} (h : IsChain next p l) (hn : l.length ≤ n) :
    walk next stop n p = some (l.find? stop) := by
  induction l generalizing p n with
  | nil =>
      rw [isChain_nil.mp h]
      cases n <;> rfl
  | cons a l ih =>
      obtain ⟨rfl, htail⟩ := isChain_cons.mp h
      cases n with
      | zero => simp at hn
      | succ n =>
          rw [walk, List.find?_cons]
          cases stop a with
          | true => rfl
          | false => exact ih htail (Nat.le_of_succ_le_succ hn)

theorem IsChain.congr {next' : α → Option α} (h : IsChain next p l)
    (hl : ∀ a ∈ l, next' a = next a) : IsChain next' p l := by
  induction l generalizing p with
  | nil => exact isChain_nil.mpr (isChain_nil.mp h)
  | cons a l ih =>
      obtain ⟨rfl, htail⟩ := isChain_cons.mp h
      refine isChain_cons.mpr ⟨rfl, ?_⟩
      rw [hl a List.mem_cons_self]
      exact ih htail fun b hb => hl b (List.mem_cons_of_mem a hb)

variable [DecidableEq α]

theorem IsChain.push (h : IsChain next p l) {a : α} (ha : a ∉ l) :
    IsChain (Function.update next a p) (some a) (a :: l) := by
  refine isChain_cons.mpr ⟨rfl, ?_⟩
  rw [Function.update_self]
  refine h.congr fun b hb => Function.update_of_ne ?_ _ _
  rintro rfl
  exact ha hb

/-- Take a cell out of a chain: the new links and the new head. -/
def unlink (n : Nat) (next : α → Option α) (head : Option α) (a : α) :
    Option ((α → Option α) × Option α) :=
  if head = some a then some (next, next a)
  else
    (walk next (fun b => next b = some a) n head).map fun
      | none => (next, head)
      | some b => (Function.update next b (next a), head)

theorem IsChain.unlink_tail (h : IsChain next p l) (hnodup : l.Nodup) {a : α} (hp : p ≠ some a) :
    match l.find? fun b => next b = some a with
    | none => a ∉ l
    | some b => b ∈ l ∧ IsChain (Function.update next b (next a)) p (l.erase a) := by
  induction l generalizing p with
  | nil => exact List.not_mem_nil
  | cons x l ih =>
      obtain ⟨rfl, htail⟩ := isChain_cons.mp h
      obtain ⟨hx, hnodup⟩ := List.nodup_cons.mp hnodup
      have hxa : x ≠ a := fun heq => hp (congrArg some heq)
      rw [List.find?_cons, List.erase_cons_tail (by simpa using hxa)]
      by_cases hnext : next x = some a
      · -- the cell comes right after the first one
        rw [decide_eq_true hnext]
        refine ⟨List.mem_cons_self, isChain_cons.mpr ⟨rfl, ?_⟩⟩
        rw [Function.update_self]
        cases l with
        | nil =>
            rw [isChain_nil.mp htail] at hnext
            cases hnext
        | cons y l =>
            obtain ⟨hy, hrest⟩ := isChain_cons.mp htail
            cases hnext.symm.trans hy
            rw [List.erase_cons_head]
            refine hrest.congr fun b hb => Function.update_of_ne ?_ _ _
            rintro rfl
            exact hx (List.mem_cons_of_mem a hb)
      · have hrec := ih htail hnodup hnext
        rw [decide_eq_false hnext]
        change match l.find? fun b => next b = some a with
          | none => a ∉ x :: l
          | some b => b ∈ x :: l ∧
              IsChain (Function.update next b (next a)) (some x) (x :: l.erase a)
        split at hrec
        · exact List.not_mem_cons_of_ne_of_not_mem (Ne.symm hxa) hrec
        · rename_i b hfind
          obtain ⟨hb, hchain⟩ := hrec
          refine ⟨List.mem_cons_of_mem x hb, isChain_cons.mpr ⟨rfl, ?_⟩⟩
          rw [Function.update_of_ne]
          · exact hchain
          · rintro rfl
            exact hx hb

/-- **Taking a cell out** erases it from the list, and touches no other chain. -/
theorem IsChain.unlink (h : IsChain next p l) (hnodup : l.Nodup) {n : Nat} (hn : l.length ≤ n)
    (a : α) :
    ∃ next' p', Lib.unlink n next p a = some (next', p') ∧ IsChain next' p' (l.erase a) ∧
      ∀ b, b ∉ l → next' b = next b := by
  unfold Lib.unlink
  by_cases hp : p = some a
  · rw [if_pos hp]
    refine ⟨next, next a, rfl, ?_, fun _ _ => rfl⟩
    cases l with
    | nil =>
        rw [isChain_nil.mp h] at hp
        cases hp
    | cons x l =>
        obtain ⟨hx, htail⟩ := isChain_cons.mp h
        cases hx.symm.trans hp
        rw [List.erase_cons_head]
        exact htail
  · rw [if_neg hp, walk_eq _ h hn, Option.map_some]
    have htail := h.unlink_tail hnodup hp
    split at htail
    · refine ⟨next, p, rfl, ?_, fun _ _ => rfl⟩
      rw [List.erase_of_not_mem htail]
      exact h
    · refine ⟨_, p, rfl, htail.2, fun c hc => Function.update_of_ne ?_ _ _⟩
      rintro rfl
      exact hc htail.1

/-! ## Both ends, and the middle -/

omit [DecidableEq α] in
theorem IsChain.head_eq (h : IsChain next p l) : p = l.head? := by
  cases l with
  | nil => exact isChain_nil.mp h
  | cons a l => exact (isChain_cons.mp h).1

omit [DecidableEq α] in
theorem IsChain.next_eq {l₁ l₂ : List α} {a : α} (h : IsChain next p (l₁ ++ a :: l₂)) :
    next a = l₂.head? := by
  induction l₁ generalizing p with
  | nil => exact (isChain_cons.mp h).2.head_eq
  | cons x l₁ ih => exact ih (isChain_cons.mp h).2

omit [DecidableEq α] in
theorem IsChain.split_of_next {a b : α} (h : IsChain next p l) (hb : b ∈ l)
    (hnext : next b = some a) :
    ∃ l₁ l₂, l = l₁ ++ b :: a :: l₂ := by
  obtain ⟨l₁, l₂, rfl⟩ := List.append_of_mem hb
  have hhead := h.next_eq
  rw [hnext] at hhead
  cases l₂ with
  | nil => cases hhead
  | cons c l₂ =>
      cases hhead
      exact ⟨l₁, l₂, rfl⟩

omit [DecidableEq α] in
theorem IsChain.linked {a : α} (h : IsChain next p l) (ha : a ∈ l) :
    p = some a ∨ ∃ b ∈ l, next b = some a := by
  obtain ⟨l₁, l₂, rfl⟩ := List.append_of_mem ha
  rcases List.eq_nil_or_concat l₁ with rfl | ⟨l₁, b, rfl⟩
  · exact Or.inl (isChain_cons.mp h).1
  · rw [List.concat_eq_append, List.append_assoc, List.singleton_append] at h
    refine Or.inr ⟨b, by simp, ?_⟩
    rw [h.next_eq]
    rfl

/-- **A cell is put behind the last one.** -/
theorem IsChain.put_last {l : List α} {t a : α} (h : IsChain next p (l ++ [t]))
    (hnodup : (l ++ [t]).Nodup) (ha : a ∉ l ++ [t]) (hnull : next a = none) :
    IsChain (Function.update next t (some a)) p (l ++ [t] ++ [a]) := by
  induction l generalizing p with
  | nil =>
      obtain ⟨rfl, -⟩ := isChain_cons.mp h
      have hne : a ≠ t := fun heq => ha (by rw [heq]; exact List.mem_cons_self)
      refine isChain_cons.mpr ⟨rfl, ?_⟩
      rw [Function.update_self]
      refine isChain_cons.mpr ⟨rfl, isChain_nil.mpr ?_⟩
      rw [Function.update_of_ne hne, hnull]
  | cons x l ih =>
      obtain ⟨rfl, htail⟩ := isChain_cons.mp h
      obtain ⟨hx, hnodup⟩ := List.nodup_cons.mp hnodup
      have hne : x ≠ t := fun heq => hx (by rw [heq]; simp)
      refine isChain_cons.mpr ⟨rfl, ?_⟩
      rw [Function.update_of_ne hne]
      exact ih htail hnodup fun hmem => ha (List.mem_cons_of_mem x hmem)

/-- **A cell is taken out** behind another one. -/
theorem IsChain.skip {l₁ l₂ : List α} {a b : α} (h : IsChain next p (l₁ ++ b :: a :: l₂))
    (hnodup : (l₁ ++ b :: a :: l₂).Nodup) :
    IsChain (Function.update next b (next a)) p (l₁ ++ b :: l₂) := by
  induction l₁ generalizing p with
  | nil =>
      obtain ⟨rfl, hb⟩ := isChain_cons.mp h
      obtain ⟨-, htail⟩ := isChain_cons.mp hb
      obtain ⟨hnot, -⟩ := List.nodup_cons.mp hnodup
      refine isChain_cons.mpr ⟨rfl, ?_⟩
      rw [Function.update_self]
      refine htail.congr fun c hc => Function.update_of_ne ?_ _ _
      rintro rfl
      exact hnot (List.mem_cons_of_mem a hc)
  | cons x l₁ ih =>
      obtain ⟨rfl, htail⟩ := isChain_cons.mp h
      obtain ⟨hx, hnodup⟩ := List.nodup_cons.mp hnodup
      have hne : x ≠ b := fun heq => hx (by rw [heq]; simp)
      refine isChain_cons.mpr ⟨rfl, ?_⟩
      rw [Function.update_of_ne hne]
      exact ih htail hnodup

end

end BroadcomWl.Lib
