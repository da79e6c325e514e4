import BroadcomWl.Lib.Counter
import BroadcomWl.Lib.Entries
import BroadcomWl.Lib.Wp

/-!
# What the scripts use of Python

A script runs until it returns, calls `sys.exit` or raises an exception; in the latter two cases it
exits with status 1. Its argument strings are octets without a NUL: those that are not UTF-8 become
strings that `str.encode` refuses.

`decodeFrom` is the decoder of UTF-8, one octet at a time. It reports an error for each sequence
that it gives up, and goes on with the octet that does not fit. -/

namespace BroadcomWl.Tools

open BroadcomWl.Lib

abbrev Bytes := List UInt8

/-- An element of `sys.argv`. -/
structure Arg where
  octets : Bytes
  noNul : 0 ∉ octets

/-- Why a script does not return: `sys.exit` with a message, or an exception. -/
inductive PyError (M : Type) where
  | exit (message : M)
  | structError
  | indexError
  | valueError
  | unicodeError
  | osError
  | processError
  deriving DecidableEq

/-- A script with the messages `M` that works on a state. -/
abbrev PyM (M σ : Type) := EStateM (PyError M) σ

variable {M σ α : Type}

/-- A part of a script that leaves the state as it is. -/
def lift : Except (PyError M) α → PyM M σ α
  | .ok a => pure a
  | .error e => throw e

@[simp] theorem wp_lift {x : Except (PyError M) α} {Q : α → σ → Prop}
    {E : PyError M → σ → Prop} {s : σ} :
    wp (lift x) Q E s ↔ (∀ a, x = .ok a → Q a s) ∧ ∀ e, x = .error e → E e s := by
  cases x with
  | ok a => simp [lift]
  | error e => simp [lift]

theorem bind_ok {β : Type} {x : Except (PyError M) α} {f : α → Except (PyError M) β} {b : β}
    (h : x >>= f = .ok b) : ∃ a, x = .ok a ∧ f a = .ok b := by
  cases x with
  | ok a => exact ⟨a, rfl, h⟩
  | error e => cases h

/-! ## Sequences -/

/-- `l[i]` -/
def index (l : List α) (i : Nat) : Except (PyError M) α :=
  match l[i]? with
  | some a => .ok a
  | none => .error .indexError

/-- `l[i:j]` -/
def getSlice (l : List α) (i j : Nat) : List α := (l.drop i).take (j - i)

/-- `l[i:j] = new` -/
def setSlice (l : List α) (i j : Nat) (new : List α) : List α := l.take i ++ new ++ l.drop j

/-- `l[i] == 0` -/
def isNul (l : Bytes) (i : Nat) : Except (PyError M) Bool := (index l i).map (· == 0)

theorem index_ok {l : List α} {i : Nat} {a : α} (h : index (M := M) l i = .ok a) :
    l[i]? = some a := by
  unfold index at h
  split at h
  · rename_i hget
    cases h
    exact hget
  · cases h

theorem isNul_true {l : Bytes} {i : Nat} (h : isNul (M := M) l i = .ok true) : l[i]? = some 0 := by
  unfold isNul at h
  cases hget : index (M := M) l i with
  | error e =>
      rw [hget] at h
      cases h
  | ok b =>
      rw [hget] at h
      have hb : b = 0 := by simpa [Except.map] using h
      exact hb ▸ index_ok hget

section

variable {l new : List α} {i j : Nat} (hi : i ≤ j) (hj : j ≤ l.length) (hnew : new.length = j - i)
include hi hj hnew

theorem setSlice_length : (setSlice l i j new).length = l.length := by
  simp only [setSlice, List.length_append, List.length_take, List.length_drop]
  omega

theorem setSlice_outside {k : Nat} (hk : ¬(i ≤ k ∧ k < j)) : (setSlice l i j new)[k]? = l[k]? := by
  have hlen : (l.take i ++ new).length = j := by
    simp only [List.length_append, List.length_take]
    omega
  unfold setSlice
  by_cases hlt : k < i
  · rw [List.append_assoc, List.getElem?_append_left (by rw [List.length_take]; omega),
      List.getElem?_take_of_lt hlt]
  · rw [List.getElem?_append_right (by omega), hlen, List.getElem?_drop,
      Nat.add_sub_cancel' (by omega)]

theorem setSlice_inside {k : Nat} (hk : k < j - i) : (setSlice l i j new)[i + k]? = new[k]? := by
  have hlen : (l.take i).length = i := List.length_take_of_le (by omega)
  unfold setSlice
  rw [List.append_assoc, List.getElem?_append_right (by omega), hlen, Nat.add_sub_cancel_left,
    List.getElem?_append_left (by omega)]

end

/-! ## Numbers -/

/-- The fields of some sizes, least significant octet first. -/
def fields (data : Bytes) : Nat → List Nat → List Nat
  | _, [] => []
  | off, size :: sizes => leNat ((data.drop off).take size) :: fields data (off + size) sizes

/-- `struct.unpack_from` -/
def unpackFrom (sizes : List Nat) (data : Bytes) (off : Nat) : Except (PyError M) (List Nat) :=
  if off + sizes.sum ≤ data.length then .ok (fields data off sizes) else .error .structError

/-! ## UTF-8 -/

/-- A sequence that has begun: how many octets come after the next one, what the next one may be,
and the bits so far. -/
structure Pending where
  owed : Nat
  low : Nat
  high : Nat
  value : Nat

/-- The first octet of a sequence: the characters that it ends, and the sequence that it begins. A
character that cannot be decoded is `none`. -/
def lead (b : Nat) : List (Option Nat) × Option Pending :=
  if b < 0x80 then ([some b], none)
  else if 0xc2 ≤ b ∧ b ≤ 0xdf then ([], some ⟨0, 0x80, 0xbf, b % 0x20⟩)
  else if 0xe0 ≤ b ∧ b ≤ 0xef then
    ([], some ⟨1, if b = 0xe0 then 0xa0 else 0x80, if b = 0xed then 0x9f else 0xbf, b % 0x10⟩)
  else if 0xf0 ≤ b ∧ b ≤ 0xf4 then
    ([], some ⟨2, if b = 0xf0 then 0x90 else 0x80, if b = 0xf4 then 0x8f else 0xbf, b % 8⟩)
  else ([none], none)

/-- One more octet. -/
def feed (p : Pending) (b : Nat) : List (Option Nat) × Option Pending :=
  if p.low ≤ b ∧ b ≤ p.high then
    let value := p.value * 64 + b % 64
    match p.owed with
    | 0 => ([some value], none)
    | n + 1 => ([], some ⟨n, 0x80, 0xbf, value⟩)
  else (none :: (lead b).1, (lead b).2)

def decodeFrom : Option Pending → Bytes → List (Option Nat)
  | none, [] => []
  | some _, [] => [none]
  | none, b :: s => (lead b.toNat).1 ++ decodeFrom (lead b.toNat).2 s
  | some p, b :: s => (feed p b.toNat).1 ++ decodeFrom (feed p b.toNat).2 s

/-- The octets are UTF-8. -/
def utf8 (s : Bytes) : Bool := (decodeFrom none s).all Option.isSome

/-- `s.decode(errors="replace")` -/
def decodeReplace (s : Bytes) : List Nat := (decodeFrom none s).map fun c => c.getD 0xfffd

/-- `str.encode` of an argument. -/
def encode (arg : Arg) : Except (PyError M) Bytes :=
  if utf8 arg.octets then .ok arg.octets else .error .unicodeError

theorem encode_ok {a : Arg} {b : Bytes} (h : encode (M := M) a = .ok b) : b = a.octets := by
  unfold encode at h
  split at h
  · cases h
    rfl
  · cases h

/-- `s.decode()`, as the octets of the string. -/
def decode (s : Bytes) : Except (PyError M) Bytes := if utf8 s then .ok s else .error .unicodeError

/-- A truncated sequence is one character that cannot be decoded. -/
example : decodeReplace [0x61, 0xf0, 0x9f, 0x98] = [0x61, 0xfffd] ∧
    decodeReplace [0xe2, 0x82, 0xac] = [0x20ac] := by
  decide

end BroadcomWl.Tools
