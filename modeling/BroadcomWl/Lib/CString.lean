import Mathlib

/-!
# Strings in memory

A list stands for the octets from an address on, as far as they may be read. A function that reads
behind them has no result, so that a result says that all that was read was there.

The functions are those of the C library. Each is determined by the string up to its terminator,
whatever comes behind it. -/

namespace BroadcomWl.Lib

/-- The string at an address. -/
def cString (mem : List UInt8) : List UInt8 := mem.takeWhile (· ≠ 0)

def strlen : List UInt8 → Option Nat
  | [] => none
  | c :: mem => if c = 0 then some 0 else (strlen mem).map (· + 1)

/-- Whether `strncmp` of at most so many octets answers zero. -/
def strncmpEq : Nat → List UInt8 → List UInt8 → Option Bool
  | 0, _, _ => some true
  | n + 1, c :: s, d :: t => if c ≠ d then some false else if c = 0 then some true
      else strncmpEq n s t
  | _, _, _ => none

variable {s behind : List UInt8}

@[simp] theorem cString_append (h : 0 ∉ s) : cString (s ++ 0 :: behind) = s := by
  have hne : ∀ c ∈ s, decide (c ≠ 0) = true := fun c hc => decide_eq_true fun h0 => h (h0 ▸ hc)
  rw [cString, List.takeWhile_append_of_pos hne]
  simp

theorem nul_not_mem_cString (mem : List UInt8) : 0 ∉ cString mem := by
  intro hmem
  have hne := List.mem_takeWhile_imp hmem
  simp at hne

@[simp] theorem strlen_append (h : 0 ∉ s) : strlen (s ++ 0 :: behind) = some s.length := by
  induction s with
  | nil => rfl
  | cons c s ih =>
      rw [List.mem_cons, not_or] at h
      rw [List.cons_append, strlen, if_neg (Ne.symm h.1), ih h.2]
      rfl

variable (behind) in
/-- A string begins with another if and only if as many octets as that one has compare equal. -/
theorem strncmpEq_append {t : List UInt8} (hs : 0 ∉ s) (ht : 0 ∉ t) :
    strncmpEq t.length (s ++ 0 :: behind) (t ++ [0]) = some (decide (t <+: s)) := by
  induction t generalizing s with
  | nil => simp [strncmpEq]
  | cons d t ih =>
      rw [List.mem_cons, not_or] at ht
      cases s with
      | nil =>
          simp [strncmpEq, ht.1]
      | cons c s =>
          rw [List.mem_cons, not_or] at hs
          rw [List.length_cons, List.cons_append, List.cons_append, strncmpEq,
            if_neg (Ne.symm hs.1), ih hs.2 ht.2]
          by_cases hcd : c = d
          · simp [hcd, List.cons_prefix_cons]
          · simp [hcd, List.cons_prefix_cons, Ne.symm hcd]

end BroadcomWl.Lib
