import Mathlib

/-!
# Arrays in a memory

A memory says what stands at each address, and an array of `n` cells is a function on `Fin n`.
`load` reads an array at an address and `store` puts one there; both may be of any length.

What is stored is read back (`load_store`), and nothing else changes: an array apart from it is read
as before (`load_store_apart`). `loads` reads several arrays of one length, one behind the other. -/

namespace BroadcomWl.Lib.Memory

variable {α : Type} {n k : Nat}

/-- The array at an address. -/
def load (m : Nat → α) (a : Nat) : Fin n → α := fun i => m (a + i)

/-- Put an array at an address. -/
def store (m : Nat → α) (a : Nat) (f : Fin n → α) : Nat → α :=
  fun x => if h : a ≤ x ∧ x < a + n then f ⟨x - a, by omega⟩ else m x

/-- Arrays of `n` and `k` cells have no address in common. -/
def Apart (a n b k : Nat) : Prop := a + n ≤ b ∨ b + k ≤ a

instance (a n b k : Nat) : Decidable (Apart a n b k) :=
  inferInstanceAs (Decidable (_ ∨ _))

/-- Two arrays of `n` cells are the same or have no address in common. -/
def Placed (a b n : Nat) : Prop := a = b ∨ Apart a n b n

variable {m m' : Nat → α} {a b x : Nat} {f : Fin n → α}

theorem Apart.symm (h : Apart a n b k) : Apart b k a n := Or.symm h

theorem Apart.mono {a' b' n' k' : Nat} (h : Apart a n b k) (ha : a ≤ a') (hn : a' + n' ≤ a + n)
    (hb : b ≤ b') (hk : b' + k' ≤ b + k) : Apart a' n' b' k' := by
  cases h with
  | inl h => exact .inl (by omega)
  | inr h => exact .inr (by omega)

theorem Apart.not_mem (h : Apart a n b k) {i : Nat} (hi : i < n) :
    ¬(b ≤ a + i ∧ a + i < b + k) := by
  cases h with
  | inl h => omega
  | inr h => omega

theorem Placed.symm (h : Placed a b n) : Placed b a n := by
  cases h with
  | inl h => exact .inl h.symm
  | inr h => exact .inr h.symm

theorem Placed.mono (h : Placed a b n) {d k : Nat} (hk : d + k ≤ n) : Placed (a + d) (b + d) k := by
  cases h with
  | inl h => exact .inl (congrArg (· + d) h)
  | inr h => exact .inr (h.mono (by omega) (by omega) (by omega) (by omega))

/-- Where the one is written from its front, the rest of the other is as before. -/
theorem Placed.not_mem (h : Placed a b n) {i j : Nat} (hij : i ≤ j) (hj : j < n) :
    ¬(b ≤ a + j ∧ a + j < b + i) := by
  cases h with
  | inl h => omega
  | inr h =>
      have hnot := h.not_mem hj
      omega

theorem load_apply (i : Fin n) : load m a i = m (a + i) := rfl

theorem store_apply (h : a ≤ x ∧ x < a + n) : store m a f x = f ⟨x - a, by omega⟩ := dif_pos h

theorem store_apply_of_not (h : ¬(a ≤ x ∧ x < a + n)) : store m a f x = m x := dif_neg h

@[simp] theorem load_store : load (store m a f) a = f := by
  funext i
  have hi := i.isLt
  rw [load_apply, store_apply ⟨Nat.le_add_right a i, by omega⟩]
  exact congrArg f (Fin.ext (Nat.add_sub_cancel_left a i))

theorem load_congr (h : ∀ i, i < n → m (a + i) = m' (b + i)) : (load m a : Fin n → α) = load m' b :=
  funext fun i => h i i.isLt

/-- **What is stored elsewhere does not matter.** -/
theorem load_store_apart (h : Apart a n b k) : (load (store m a f) b : Fin k → α) = load m b := by
  funext i
  rw [load_apply, load_apply, store_apply_of_not (h.symm.not_mem i.isLt)]

/-! ## Several arrays -/

/-- `k` arrays, the first of them at an address. -/
def loads (m : Nat → α) : Nat → Nat → List (Fin n → α)
  | _, 0 => []
  | a, k + 1 => load m a :: loads m (a + n) k

theorem loads_const (x : α) :
    (loads (fun _ => x) a k : List (Fin n → α)) = List.replicate k fun _ => x := by
  induction k generalizing a with
  | zero => rfl
  | succ k ih =>
      rw [loads, ih]
      rfl

theorem loads_congr (h : ∀ i, i < n * k → m (a + i) = m' (b + i)) :
    (loads m a k : List (Fin n → α)) = loads m' b k := by
  induction k generalizing a b with
  | zero => rfl
  | succ k ih =>
      rw [Nat.mul_succ] at h
      have hfirst : (load m a : Fin n → α) = load m' b := load_congr fun i hi => h i (by omega)
      have hrest : (loads m (a + n) k : List (Fin n → α)) = loads m' (b + n) k := by
        apply ih
        intro i hi
        rw [Nat.add_assoc, Nat.add_assoc]
        exact h (n + i) (by omega)
      rw [loads, loads, hfirst, hrest]

theorem loads_inj (h : (loads m a k : List (Fin n → α)) = loads m' b k) :
    ∀ i < n * k, m (a + i) = m' (b + i) := by
  induction k generalizing a b with
  | zero =>
      intro i hi
      exact absurd hi (Nat.not_lt_zero i)
  | succ k ih =>
      intro i hi
      obtain ⟨hfirst, hrest⟩ := List.cons.inj h
      by_cases hin : i < n
      · exact congrFun hfirst ⟨i, hin⟩
      · have hcell := ih hrest (i - n) (by rw [Nat.mul_succ] at hi; omega)
        rwa [Nat.add_assoc, Nat.add_assoc, Nat.add_sub_cancel' (by omega)] at hcell

theorem loads_succ :
    (loads m a (k + 1) : List (Fin n → α)) = loads m a k ++ [load m (a + n * k)] := by
  induction k generalizing a with
  | zero => rfl
  | succ k ih =>
    rw [loads, ih, Nat.add_assoc, Nat.add_comm n, ← Nat.mul_succ, loads, List.cons_append]

end BroadcomWl.Lib.Memory
