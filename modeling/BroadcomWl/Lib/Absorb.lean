import Mathlib

/-!
# A string taken in piece by piece

A function `compress` takes in blocks of `n` cells, one after another (`chainBlocks`). A string that
comes in pieces is taken in as far as it has whole blocks; what is left waits in a buffer.

**The invariant** (`Absorbed`) relates what has come so far to the value and the buffer, however the
pieces were cut. A piece that does not fill the buffer is put behind it (`Absorbed.wait`), one that
fills it exactly makes a block (`Absorbed.fill`), and whole blocks may go past an empty buffer
(`Absorbed.blocks`). -/

namespace BroadcomWl.Lib

variable {σ α : Type} (compress : σ → List α → σ) (n : Nat)

/-- `k` blocks of a string, from the front. -/
def chainBlocks : Nat → σ → List α → σ
  | 0, h, _ => h
  | k + 1, h, l => chainBlocks k (compress h (l.take n)) (l.drop n)

/-- The string `m` has been taken in: its whole blocks are in the value `h`, the rest is in the
buffer. -/
structure Absorbed (h₀ : σ) (m : List α) (h : σ) (buffer : List α) : Prop where
  value : h = chainBlocks compress n (m.length / n) h₀ m
  buffer : buffer = m.drop (n * (m.length / n))

variable {compress n}

theorem chainBlocks_append {k : Nat} {l : List α} (hl : n * k ≤ l.length) (h : σ) (l' : List α) :
    chainBlocks compress n k h (l ++ l') = chainBlocks compress n k h l := by
  induction k generalizing h l with
  | zero => rfl
  | succ k ih =>
      rw [Nat.mul_succ] at hl
      have htake : (l ++ l').take n = l.take n := List.take_append_of_le_length (by omega)
      have hdrop : (l ++ l').drop n = l.drop n ++ l' := List.drop_append_of_le_length (by omega)
      rw [chainBlocks, chainBlocks, htake, hdrop, ih (by rw [List.length_drop]; omega)]

/-- **One chain after another.** -/
theorem chainBlocks_add (i k : Nat) (h : σ) (l : List α) :
    chainBlocks compress n (i + k) h l =
      chainBlocks compress n k (chainBlocks compress n i h l) (l.drop (n * i)) := by
  induction i generalizing h l with
  | zero => rw [Nat.zero_add, Nat.mul_zero, List.drop_zero, chainBlocks]
  | succ i ih =>
      rw [Nat.succ_add, chainBlocks, chainBlocks, ih, List.drop_drop]
      congr 2
      rw [Nat.mul_succ, Nat.add_comm]

namespace Absorbed

variable {h₀ h : σ} {m buffer l : List α}

theorem nil (compress : σ → List α → σ) (n : Nat) (h₀ : σ) : Absorbed compress n h₀ [] h₀ [] := by
  constructor
  · rw [List.length_nil, Nat.zero_div, chainBlocks]
  · rw [List.drop_nil]

theorem length (ha : Absorbed compress n h₀ m h buffer) : buffer.length = m.length % n := by
  rw [ha.buffer, List.length_drop, Nat.mod_eq_sub_mul_div]

theorem total (ha : Absorbed compress n h₀ m h buffer) (l : List α) :
    (m ++ l).length = n * (m.length / n) + (buffer ++ l).length := by
  have hwhole := Nat.mul_div_le m.length n
  rw [ha.buffer, List.length_append, List.length_append, List.length_drop]
  omega

theorem drop_append (ha : Absorbed compress n h₀ m h buffer) (l : List α) :
    (m ++ l).drop (n * (m.length / n)) = buffer ++ l := by
  rw [List.drop_append_of_le_length (Nat.mul_div_le _ _), ha.buffer]

/-- **A piece that does not fill the buffer.** -/
theorem wait (ha : Absorbed compress n h₀ m h buffer) (hl : (buffer ++ l).length < n) :
    Absorbed compress n h₀ (m ++ l) h (buffer ++ l) := by
  have hn : 0 < n := by omega
  have hdiv : (m ++ l).length / n = m.length / n := by
    rw [ha.total l, Nat.mul_add_div hn, Nat.div_eq_of_lt hl, Nat.add_zero]
  constructor
  · rw [hdiv, chainBlocks_append (Nat.mul_div_le _ _)]
    exact ha.value
  · rw [hdiv, ha.drop_append]

/-- **Whole blocks from the buffer on.** -/
theorem blocks (ha : Absorbed compress n h₀ m h buffer) {k : Nat} (hn : 0 < n)
    (hl : (buffer ++ l).length = n * k) :
    Absorbed compress n h₀ (m ++ l) (chainBlocks compress n k h (buffer ++ l)) [] := by
  have hdiv : (m ++ l).length / n = m.length / n + k := by
    rw [ha.total l, hl, ← Nat.mul_add, Nat.mul_div_cancel_left _ hn]
  constructor
  · rw [hdiv, chainBlocks_add, chainBlocks_append (Nat.mul_div_le _ _), ← ha.value, ha.drop_append]
  · rw [hdiv, List.drop_eq_nil_of_le]
    rw [ha.total l, hl, Nat.mul_add]

/-- **A piece that fills the buffer.** -/
theorem fill (ha : Absorbed compress n h₀ m h buffer) (hn : 0 < n) (hl : (buffer ++ l).length = n) :
    Absorbed compress n h₀ (m ++ l) (compress h (buffer ++ l)) [] := by
  have hblocks := ha.blocks (k := 1) hn (by rw [hl, Nat.mul_one])
  rwa [chainBlocks, chainBlocks, List.take_of_length_le (Nat.le_of_eq hl)] at hblocks

end Absorbed

end BroadcomWl.Lib
