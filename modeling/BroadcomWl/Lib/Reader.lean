import Mathlib

/-!
# Programs that read octets

A `Reader` asks for octets by their offset, one after the other, and what it asks for may depend on
what it has read. In memory every offset has an octet, so that there is always a result (`run`). The
program stays inside a buffer if all that it asks for on the way is there (`Inside`).

**Inside.** A sequence of programs stays inside if each of them does, with the results of those
before (`inside_bind`). -/

namespace BroadcomWl.Lib

inductive Reader (α : Type) where
  | done (a : α)
  | ask (off : Nat) (next : UInt8 → Reader α)

namespace Reader

variable {α β : Type}

protected def bind : Reader α → (α → Reader β) → Reader β
  | done a, f => f a
  | ask off next, f => ask off fun b => (next b).bind f

instance monad : Monad Reader where
  pure := done
  bind := Reader.bind

/-- The octet at an offset. -/
def octet (off : Nat) : Reader UInt8 := ask off done

/-- Octets one after the other. -/
def octets (off : Nat) : Nat → Reader (List UInt8)
  | 0 => pure []
  | n + 1 => do
    let b ← octet off
    let rest ← octets (off + 1) n
    pure (b :: rest)

/-- A number of two octets, the least significant one first. -/
def le16 (off : Nat) : Reader Nat := do
  let low ← octet off
  let high ← octet (off + 1)
  pure (low.toNat + high.toNat * 256)

/-- A number of two octets, the most significant one first. -/
def be16 (off : Nat) : Reader Nat := do
  let high ← octet off
  let low ← octet (off + 1)
  pure (high.toNat * 256 + low.toNat)

/-- A number of four octets, the most significant one first. -/
def be32 (off : Nat) : Reader Nat := do
  let high ← be16 off
  let low ← be16 (off + 2)
  pure (high * 65536 + low)

/-- The result in memory. -/
def run (m : Nat → UInt8) : Reader α → α
  | done a => a
  | ask off next => run m (next (m off))

/-- All offsets that are asked for are below `n`. -/
def Inside (m : Nat → UInt8) (n : Nat) : Reader α → Prop
  | done _ => True
  | ask off next => off < n ∧ Inside m n (next (m off))

instance Inside.decidable (m : Nat → UInt8) (n : Nat) : ∀ r : Reader α, Decidable (Inside m n r)
  | done _ => isTrue trivial
  | ask off next =>
    @instDecidableAnd (off < n) (Inside m n (next (m off))) inferInstance
      (Inside.decidable m n (next (m off)))

/-- A program that counts its offsets from `k` on. -/
def shift (k : Nat) : Reader α → Reader α
  | done a => done a
  | ask off next => ask (k + off) fun b => (next b).shift k

/-- The octets that memory has from an offset on. -/
def slice (m : Nat → UInt8) (off : Nat) : Nat → List UInt8
  | 0 => []
  | n + 1 => m off :: slice m (off + 1) n

variable {m m' : Nat → UInt8} {n : Nat}

@[simp] theorem run_pure (a : α) : run m (pure a) = a := rfl

@[simp] theorem run_bind (r : Reader α) (f : α → Reader β) :
    run m (r >>= f) = run m (f (run m r)) := by
  induction r with
  | done a => rfl
  | ask off next ih => exact ih (m off)

@[simp] theorem run_ite {c : Prop} [Decidable c] {r r' : Reader α} :
    run m (if c then r else r') = if c then run m r else run m r' := by
  split <;> rfl

-- Not by `rfl`: the value is what conditions are about, and their `Decidable` instances have to
-- follow it.
@[simp] theorem run_octet (off : Nat) : run m (octet off) = m off := by
  rw [octet, run, run]

@[simp] theorem run_le16 (off : Nat) :
    run m (le16 off) = (m off).toNat + (m (off + 1)).toNat * 256 := by
  rw [le16, run_bind, run_bind, run_octet, run_octet, run_pure]

@[simp] theorem run_be16 (off : Nat) :
    run m (be16 off) = (m off).toNat * 256 + (m (off + 1)).toNat := by
  rw [be16, run_bind, run_bind, run_octet, run_octet, run_pure]

@[simp] theorem run_be32 (off : Nat) :
    run m (be32 off) = run m (be16 off) * 65536 + run m (be16 (off + 2)) := by
  rw [be32, run_bind, run_bind, run_pure]

@[simp] theorem run_octets (off k : Nat) : run m (octets off k) = slice m off k := by
  induction k generalizing off with
  | zero => rfl
  | succ k ih => simp [octets, slice, ih]

@[simp] theorem inside_pure (a : α) : Inside m n (pure a) := trivial

/-- **One program after another.** -/
@[simp] theorem inside_bind (r : Reader α) (f : α → Reader β) :
    Inside m n (r >>= f) ↔ Inside m n r ∧ Inside m n (f (run m r)) := by
  induction r with
  | done a => exact ⟨fun h => ⟨trivial, h⟩, fun h => h.2⟩
  | ask off next ih =>
      have hnext := ih (m off)
      exact (and_congr_right fun _ => hnext).trans and_assoc.symm

@[simp] theorem inside_octet (off : Nat) : Inside m n (octet off) ↔ off < n :=
  ⟨fun h => h.1, fun h => ⟨h, trivial⟩⟩

@[simp] theorem inside_le16 (off : Nat) : Inside m n (le16 off) ↔ off + 2 ≤ n := by
  simp only [le16, inside_bind, inside_octet, inside_pure, and_true]
  omega

@[simp] theorem inside_be16 (off : Nat) : Inside m n (be16 off) ↔ off + 2 ≤ n := by
  simp only [be16, inside_bind, inside_octet, inside_pure, and_true]
  omega

@[simp] theorem inside_be32 (off : Nat) : Inside m n (be32 off) ↔ off + 4 ≤ n := by
  simp only [be32, inside_bind, inside_be16, inside_pure, and_true]
  omega

@[simp] theorem inside_octets (off k : Nat) : Inside m n (octets off k) ↔ k = 0 ∨ off + k ≤ n := by
  induction k generalizing off with
  | zero => simp [octets]
  | succ k ih =>
      simp only [octets, inside_bind, inside_octet, ih, inside_pure, and_true]
      omega

theorem inside_ite {c : Prop} [Decidable c] {r r' : Reader α} :
    Inside m n (if c then r else r') ↔ (c → Inside m n r) ∧ (¬c → Inside m n r') := by
  split
  · rename_i hc
    simp [hc]
  · rename_i hc
    simp [hc]

@[simp] theorem run_shift (k : Nat) (r : Reader α) :
    run m (r.shift k) = run (fun i => m (k + i)) r := by
  induction r with
  | done a => rfl
  | ask off next ih => exact ih (m (k + off))

theorem inside_shift (k : Nat) (r : Reader α) :
    Inside m n (r.shift k) ↔ Inside (fun i => m (k + i)) (n - k) r := by
  induction r with
  | done a => exact Iff.rfl
  | ask off next ih => exact and_congr (by omega) (ih (m (k + off)))

end Reader

end BroadcomWl.Lib
