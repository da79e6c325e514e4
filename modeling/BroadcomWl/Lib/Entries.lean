import Mathlib

/-!
# Searching octets, and strings that end with a NUL

`find` is the leftmost occurrence of some octets from an offset on, as in Python; `find_some` and
`find_none` say what it finds.

A string table is a run of strings, each ended by a NUL. `Entry s i e` says that the string `e`
stands at offset `i` of `s`. Two of them are apart (`Entry.apart`), so that a change inside one
leaves the others as they are (`Entry.congr`). -/

namespace BroadcomWl.Lib

/-! ## Searching -/

section

variable {α : Type} [DecidableEq α]

/-- The leftmost occurrence; the offset is that of the list. -/
def findFrom (needle : List α) : List α → Nat → Option Nat
  | [], i => if needle = [] then some i else none
  | a :: l, i => if needle <+: a :: l then some i else findFrom needle l (i + 1)

/-- The leftmost occurrence from an offset on. -/
def find (l needle : List α) (start : Nat) : Option Nat :=
  if start ≤ l.length then findFrom needle (l.drop start) start else none

variable {l needle : List α} {start i k : Nat}

theorem findFrom_some (h : findFrom needle l start = some i) :
    start ≤ i ∧ needle <+: l.drop (i - start) ∧ i - start ≤ l.length ∧
      ∀ k, start ≤ k → k < i → ¬needle <+: l.drop (k - start) := by
  induction l generalizing start with
  | nil =>
      unfold findFrom at h
      split at h
      · rename_i hnil
        cases h
        subst hnil
        exact ⟨le_rfl, List.nil_prefix, by simp, fun k hk hlt => absurd hk (by omega)⟩
      · cases h
  | cons a l ih =>
      unfold findFrom at h
      split at h
      · rename_i hprefix
        cases h
        refine ⟨le_rfl, ?_, by simp, fun k hk hlt => absurd hk (by omega)⟩
        rwa [Nat.sub_self]
      · rename_i hnot
        obtain ⟨hle, hprefix, hlen, hleft⟩ := ih h
        have hdrop : ∀ k, start + 1 ≤ k → (a :: l).drop (k - start) = l.drop (k - (start + 1)) := by
          intro k hk
          rw [show k - start = k - (start + 1) + 1 by omega, List.drop_succ_cons]
        refine ⟨by omega, ?_, ?_, fun k hk hlt => ?_⟩
        · rwa [hdrop i hle]
        · rw [List.length_cons]
          omega
        · by_cases hfirst : k = start
          · subst hfirst
            rwa [Nat.sub_self]
          · rw [hdrop k (by omega)]
            exact hleft k (by omega) hlt

theorem findFrom_none (h : findFrom needle l start = none) :
    ∀ k ≤ l.length, ¬needle <+: l.drop k := by
  induction l generalizing start with
  | nil =>
      unfold findFrom at h
      split at h
      · cases h
      · rename_i hne
        intro k _ hprefix
        rw [List.drop_nil, List.prefix_nil] at hprefix
        exact hne hprefix
  | cons a l ih =>
      unfold findFrom at h
      split at h
      · cases h
      · rename_i hnot
        intro k hk
        cases k with
        | zero => exact hnot
        | succ k => exact ih h k (Nat.le_of_succ_le_succ hk)

/-- **What is found** is there, and is the leftmost. -/
theorem find_some (h : find l needle start = some i) :
    start ≤ i ∧ i ≤ l.length ∧ needle <+: l.drop i ∧ ∀ k, start ≤ k → k < i →
    ¬needle <+: l.drop k := by
  unfold find at h
  split at h
  · rename_i hstart
    obtain ⟨hle, hprefix, hlen, hleft⟩ := findFrom_some h
    have hdrop : ∀ k, start ≤ k → (l.drop start).drop (k - start) = l.drop k := by
      intro k hk
      rw [List.drop_drop, Nat.add_sub_cancel' hk]
    rw [List.length_drop] at hlen
    refine ⟨hle, by omega, (hdrop i hle) ▸ hprefix, fun k hk hlt => ?_⟩
    exact (hdrop k hk) ▸ hleft k hk hlt
  · cases h

theorem find_none (h : find l needle start = none) :
    ∀ k, start ≤ k → k ≤ l.length → ¬needle <+: l.drop k := by
  unfold find at h
  split at h
  · intro k hk hlen
    have hnot := findFrom_none h (k - start) (by rw [List.length_drop]; omega)
    rwa [List.drop_drop, Nat.add_sub_cancel' hk] at hnot
  · intro k hk hlen
    omega

end

/-! ## Entries -/

/-- A string ended by a NUL stands at an offset. -/
structure Entry (s : List UInt8) (i : Nat) (e : List UInt8) : Prop where
  octets : e <+: s.drop i
  noNul : 0 ∉ e
  ended : s[i + e.length]? = some 0
  begins : i = 0 ∨ s[i - 1]? = some 0

namespace Entry

variable {s t e f : List UInt8} {i j : Nat}

theorem getElem? (h : Entry s i e) {k : Nat} (hk : k < e.length) : s[i + k]? = e[k]? := by
  obtain ⟨rest, hrest⟩ := h.octets
  rw [← List.getElem?_drop, ← hrest, List.getElem?_append_left hk]

theorem length_lt (h : Entry s i e) : i + e.length < s.length :=
  (List.getElem?_eq_some_iff.mp h.ended).1

/-- **There is a NUL between two of them.** -/
theorem apart (h : Entry s i e) (h' : Entry s j f) (hlt : i < j) : i + e.length < j := by
  by_contra hnot
  have hnul : s[j - 1]? = some 0 := h'.begins.resolve_left (by omega)
  have hoctet := h.getElem? (k := j - 1 - i) (by omega)
  rw [Nat.add_sub_cancel' (by omega), hnul] at hoctet
  exact h.noNul (List.mem_of_getElem? hoctet.symm)

/-- **One string for an offset.** -/
theorem unique (h : Entry s i e) (h' : Entry s i f) : e = f := by
  have hshort : ∀ {a b : List UInt8}, Entry s i a → Entry s i b → ¬a.length < b.length := by
    intro a b ha hb hlt
    have hnul := hb.getElem? hlt
    rw [ha.ended] at hnul
    exact hb.noNul (List.mem_of_getElem? hnul.symm)
  have hlen : e.length = f.length := by
    have hle := hshort h h'
    have hge := hshort h' h
    omega
  apply List.ext_getElem? fun k => ?_
  by_cases hk : k < e.length
  · rw [← h.getElem? hk, h'.getElem? (hlen ▸ hk)]
  · rw [List.getElem?_eq_none (by omega), List.getElem?_eq_none (by omega)]

theorem congr (h : Entry s i e) (hsame : ∀ k, i ≤ k + 1 → k ≤ i + e.length → t[k]? = s[k]?) :
    Entry t i e := by
  refine ⟨?_, h.noNul, ?_, ?_⟩
  · rw [List.prefix_iff_getElem?]
    intro k hk
    rw [List.getElem?_drop, hsame (i + k) (by omega) (by omega), h.getElem? hk,
      List.getElem?_eq_getElem hk]
  · rw [hsame _ (by omega) le_rfl, h.ended]
  · cases h.begins with
    | inl hzero => exact .inl hzero
    | inr hnul =>
        by_cases hzero : i = 0
        · exact .inl hzero
        · exact .inr (by rw [hsame (i - 1) (by omega) (by omega), hnul])

end Entry

end BroadcomWl.Lib
