import BroadcomWl.Crypto.Cipher
import BroadcomWl.Lib.Stream

/-!
# The laws of RC4

`prepare_key` and `rc4` of `rc4.c`. `rc4` is the stream cipher of a generator that swaps two cells
of the state array and reads a third (`rc4_eq_crypt`).

**The array** holds each of the 256 octets once: a swap permutes it, also of a cell with itself
(`swap_perm`).

**The laws** (`rc4_laws`) are those of the library: the array stays a permutation from one call to
the next, a second call from the same state undoes the first, and a buffer may be given in pieces.
-/

namespace BroadcomWl.Crypto.Rc4

open BroadcomWl.Nas (Bytes)
open BroadcomWl.Lib.Stream

/-! ## The state array -/

/-- The array holds each octet once. -/
def Permuted (state : List UInt8) : Prop := state.Perm ((List.range 256).map UInt8.ofNat)

theorem Permuted.length {state : List UInt8} (h : Permuted state) : state.length = 256 := by
  rw [List.Perm.length_eq h, List.length_map, List.length_range]

/-- **A swap permutes the array.** -/
theorem swap_perm {l : List UInt8} {i j : Nat} (hi : i < l.length) (hj : j < l.length) :
    (swap l i j).Perm l := by
  rw [swap, List.getD_eq_getElem _ _ hi, List.getD_eq_getElem _ _ hj]
  exact List.set_set_perm hi hj

theorem Permuted.swap {l : List UInt8} (h : Permuted l) {i j : Nat} (hi : i < 256) (hj : j < 256) :
    Permuted (swap l i j) := by
  rw [← h.length] at hi hj
  exact (swap_perm hi hj).trans h

theorem permuted_rc4Schedule (key : Bytes) {cs : List Nat} (hcs : ∀ c ∈ cs, c < 256)
    (index1 index2 : Nat) {l : List UInt8} (hl : Permuted l) :
    Permuted (rc4Schedule key cs index1 index2 l) := by
  induction cs generalizing index1 index2 l with
  | nil => exact hl
  | cons c cs ih =>
      rw [List.forall_mem_cons] at hcs
      exact ih hcs.2 _ _ (hl.swap hcs.1 (Nat.mod_lt _ (by decide)))

theorem permuted_prepareKey (key : Bytes) : Permuted (prepareKey key).state := by
  have hfirst : Permuted ((List.range 256).map UInt8.ofNat) := List.Perm.refl _
  simpa only [prepareKey]
    using permuted_rc4Schedule key (fun _ hc => List.mem_range.mp hc) 0 0 hfirst

/-! ## The stream -/

/-- A pass of the loop of `rc4`: the octet of the key stream, and the next state. -/
def rc4Next (ks : Rc4State) : UInt8 × Rc4State :=
  let x := ks.x + 1
  let y := ks.y + ks.state.getD x.toNat 0
  let state := swap ks.state x.toNat y.toNat
  (state.getD (state.getD x.toNat 0 + state.getD y.toNat 0).toNat 0, ⟨state, x, y⟩)

/-- **`rc4` is a stream cipher.** -/
theorem rc4_eq_crypt (buf : Bytes) (ks : Rc4State) :
    rc4 buf ks = crypt rc4Next (· ^^^ ·) buf ks := by
  induction buf generalizing ks with
  | nil => rfl
  | cons b buf ih => rw [rc4, crypt_cons, ih, rc4Next]

theorem permuted_rc4Next (ks : Rc4State) (h : Permuted ks.state) : Permuted (rc4Next ks).2.state :=
  h.swap (UInt8.toNat_lt _) (UInt8.toNat_lt _)

theorem permuted_rc4 (buf : Bytes) {ks : Rc4State} (h : Permuted ks.state) :
    Permuted (rc4 buf ks).2.state := by
  rw [rc4_eq_crypt]
  exact crypt_keeps (I := fun ks : Rc4State => Permuted ks.state) permuted_rc4Next buf h

theorem rc4_rc4 (buf : Bytes) (ks : Rc4State) : rc4 (rc4 buf ks).1 ks = (buf, (rc4 buf ks).2) := by
  rw [rc4_eq_crypt buf, rc4_eq_crypt]
  refine crypt_crypt (fun a k => ?_) buf ks
  rw [UInt8.xor_assoc, UInt8.xor_self, UInt8.xor_zero]

theorem rc4_append (a b : Bytes) (ks : Rc4State) :
    rc4 (a ++ b) ks = ((rc4 a ks).1 ++ (rc4 b (rc4 a ks).2).1, (rc4 b (rc4 a ks).2).2) := by
  simp only [rc4_eq_crypt]
  exact crypt_append a b ks

/-- The state after one call for each buffer. -/
def rc4Calls (bufs : List Bytes) (ks : Rc4State) : Rc4State :=
  bufs.foldl (fun ks buf => (rc4 buf ks).2) ks

theorem permuted_rc4Calls (bufs : List Bytes) {ks : Rc4State} (h : Permuted ks.state) :
    Permuted (rc4Calls bufs ks).state := by
  induction bufs generalizing ks with
  | nil => exact h
  | cons buf bufs ih => exact ih (permuted_rc4 buf h)

/-- **The laws.** After the key has been prepared and after each call the array is a permutation; a
second call from an equal state restores the buffer; and two calls are one on both buffers. -/
theorem rc4_laws (key : Bytes) :
    (∀ bufs : List Bytes, Permuted (rc4Calls bufs (prepareKey key)).state) ∧
      (∀ (buf : Bytes) (ks : Rc4State), (rc4 (rc4 buf ks).1 ks).1 = buf) ∧
      ∀ (a b : Bytes) (ks : Rc4State),
        rc4 (a ++ b) ks = ((rc4 a ks).1 ++ (rc4 b (rc4 a ks).2).1, (rc4 b (rc4 a ks).2).2) := by
  refine ⟨fun bufs => permuted_rc4Calls bufs (permuted_prepareKey key), fun buf ks => ?_,
    rc4_append⟩
  rw [rc4_rc4]

/-! ## The dropped octets -/

/-- **Key data** is decrypted by the function that encrypts it. -/
theorem rc4Drop256_rc4Drop256 (key buf : Bytes) : rc4Drop256 key (rc4Drop256 key buf) = buf := by
  rw [rc4Drop256, rc4Drop256, rc4_rc4]

end BroadcomWl.Crypto.Rc4
