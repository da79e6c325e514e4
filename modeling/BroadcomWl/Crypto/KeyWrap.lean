import BroadcomWl.Crypto.Cipher
import BroadcomWl.Lib.KeyWrap
import BroadcomWl.Lib.Run

/-!
# AES key wrap

`aeskeywrap.c` in memory: input and output are addresses, the lengths are of type `size_t`, and each
`memcpy` checks that what it copies is there and has room. Without room a function has no result.
The block cipher is a parameter, a permutation of the blocks for each key.

**Refinement.** The registers `A` and `R` are a state of the construction of RFC 3394, and the loops
are its steps (`aesWrap_eq`, `aesUnwrap_eq`).

**Inverse.** `key_wrap_inverse` says that `aes_unwrap` gives back what was wrapped, and accepts
nothing else.

**Numbers.** The number of a step goes into one octet of the register. `wrap_conforms_iff` says for
which lengths this is RFC 3394, and `unwrap_safe_iff` for which lengths `aes_unwrap` stays inside
its buffers. -/

namespace BroadcomWl.Crypto.KeyWrap

open BroadcomWl.Nas (Bytes Mem)
open BroadcomWl.Lib (foldlM_simulation)
open BroadcomWl.Lib.KeyWrap (State step wrap)
open Equiv (Perm)

/-! ## The code -/

/-- The lengths that `kl` may have. -/
def ValidKey (key : Bytes) : Prop := key.length = 16 ∨ key.length = 24 ∨ key.length = 32

instance (key : Bytes) : Decidable (ValidKey key) :=
  inferInstanceAs (Decidable (_ ∨ _))

/-- `aes_block_encrypt` and `aes_block_decrypt`, each after its key setup. -/
structure BlockCipher where
  encrypt : Bytes → Bytes → Bytes
  decrypt : Bytes → Bytes → Bytes
  encrypt_length : ∀ key block, block.length = 16 → (encrypt key block).length = 16
  decrypt_length : ∀ key block, block.length = 16 → (decrypt key block).length = 16
  decrypt_encrypt : ∀ key block, ValidKey key → block.length = 16 →
    decrypt key (encrypt key block) = block
  encrypt_decrypt : ∀ key block, ValidKey key → block.length = 16 →
    encrypt key (decrypt key block) = block

/-- Put octets into memory. -/
def Mem.write (mem : Mem) (addr : Nat) (b : Bytes) : Mem :=
  fun x => if addr ≤ x ∧ x < addr + b.length then b.getD (x - addr) 0 else mem x

/-- Put octets into an array. -/
def splice (dst : Bytes) (off : Nat) (src : Bytes) : Bytes :=
  dst.take off ++ src ++ dst.drop (off + src.length)

/-- `memcpy` of some octets, where there are so many from the source on and so many from the
destination on. -/
def copy (len source target : Nat) : Option Unit :=
  if len ≤ source ∧ len ≤ target then some () else none

/-- The first half of `A`, and `R`; the other half of `A` is where the block for the cipher is put
together. -/
structure Regs where
  A : Bytes
  R : Bytes

/-- The body of the loops of `aes_wrap`. -/
def wrapStep (E : Bytes → Bytes) (n j : Nat) (s : Regs) (i : Nat) : Option Regs := do
  copy 8 (akwMaxWrapLen - 8 * i) 8
  let B := E (s.A ++ (s.R.drop (8 * i)).take 8)
  copy 8 8 (akwMaxWrapLen - 8 * i)
  some ⟨xorLast (B.take 8) (n * j + i + 1), splice s.R (8 * i) (B.drop 8)⟩

/-- The body of the loops of `aes_unwrap`. -/
def unwrapStep (D : Bytes → Bytes) (n j : Nat) (s : Regs) (i : Nat) : Option Regs := do
  copy 8 (akwMaxWrapLen + 8 - 8 * i) 8
  let B := D (xorLast s.A (n * j + i + 1) ++ (s.R.drop (8 * i)).take 8)
  copy 8 8 (akwMaxWrapLen + 8 - 8 * i)
  some ⟨B.take 8, splice s.R (8 * i) (B.drop 8)⟩

def wrapLoops (E : Bytes → Bytes) (n : Nat) (s : Regs) : Option Regs :=
  (List.range 6).foldlM (fun s j => (List.range n).foldlM (wrapStep E n j) s) s

def unwrapLoops (D : Bytes → Bytes) (n : Nat) (s : Regs) : Option Regs :=
  (List.range 6).reverse.foldlM (fun s j => (List.range n).reverse.foldlM (unwrapStep D n j) s) s

/-- `aes_wrap`: what it returns, and the memory. -/
def aesWrap (C : BlockCipher) (key : Bytes) (il : UInt32) (mem : Mem) (input output : Nat) :
    Option (Nat × Mem) :=
  let il := il.toNat
  if ¬ValidKey key ∨ akwMaxWrapLen < il ∨ il % 8 ≠ 0 then some (1, mem)
  else do
    copy 8 8 16
    copy il il akwMaxWrapLen
    let s ← wrapLoops (C.encrypt key) (il / 8) ⟨aeskeywrapIV, mem.slice input il⟩
    copy 8 16 (il + 8)
    copy il akwMaxWrapLen il
    some (0, Mem.write (Mem.write mem output s.A) (output + 8) s.R)

/-- `aes_unwrap`; the output has room for `il` octets. -/
def aesUnwrap (C : BlockCipher) (key : Bytes) (il : UInt32) (mem : Mem) (input output : Nat) :
    Option (Nat × Mem) :=
  let ol := (il - 8).toNat
  let il := il.toNat
  if ¬ValidKey key ∨ akwMaxWrapLen + 8 < il ∨ il % 8 ≠ 0 then some (1, mem)
  else do
    copy 8 il 16
    copy ol (il - 8) (akwMaxWrapLen + 8)
    let s ← unwrapLoops (C.decrypt key) (ol / 8) ⟨mem.slice input 8, mem.slice (input + 8) ol⟩
    if s.A = aeskeywrapIV then do
      copy ol (akwMaxWrapLen + 8) il
      some (0, Mem.write mem output s.R)
    else some (1, mem)

theorem copy_ok {len source target : Nat} (hsource : len ≤ source) (htarget : len ≤ target) :
    copy len source target = some () := by
  rw [copy, if_pos ⟨hsource, htarget⟩]

/-! ## Memory -/

theorem write_slice (mem : Mem) (addr : Nat) (b : Bytes) :
    (Mem.write mem addr b).slice addr b.length = b := by
  refine Nas.Mem.slice_eq fun i hi => ?_
  rw [Mem.write, if_pos (by omega), Nat.add_sub_cancel_left]

theorem write_append (mem : Mem) (addr : Nat) (b b' : Bytes) :
    Mem.write (Mem.write mem addr b) (addr + b.length) b' = Mem.write mem addr (b ++ b') := by
  funext x
  simp only [Mem.write, List.length_append]
  by_cases hx : addr ≤ x
  · by_cases hb : x < addr + b.length
    · rw [if_neg (by omega), if_pos ⟨hx, hb⟩, if_pos (by omega),
        List.getD_append _ _ _ _ (by omega)]
    · by_cases hb' : x < addr + b.length + b'.length
      · rw [if_pos (by omega), if_pos (by omega), List.getD_append_right _ _ _ _ (by omega),
          Nat.sub_sub]
      · rw [if_neg (by omega), if_neg (by omega), if_neg (by omega)]
  · rw [if_neg (by omega), if_neg (by omega), if_neg (by omega)]

theorem write_apply_of_not_mem {mem : Mem} {addr x : Nat} {b : Bytes}
    (h : ¬(addr ≤ x ∧ x < addr + b.length)) :
    Mem.write mem addr b x = mem x := by
  rw [Mem.write, if_neg h]

/-! ## Blocks -/

/-- Half a block of the cipher. -/
abbrev Block := { b : Bytes // b.length = 8 }

variable {n : Nat}

/-- The octets of an array of half blocks. -/
def flat (r : Fin n → Block) : Bytes := (List.ofFn fun i => (r i).val).flatten

theorem flat_succ (r : Fin (n + 1) → Block) : flat r = (r 0).val ++ flat fun i => r i.succ := by
  rw [flat, List.ofFn_succ, List.flatten_cons]
  rfl

@[simp] theorem flat_length (r : Fin n → Block) : (flat r).length = 8 * n := by
  induction n with
  | zero => rfl
  | succ n ih =>
      rw [flat_succ, List.length_append, (r 0).property, ih]
      omega

theorem flat_split (r : Fin n → Block) (i : Fin n) :
    ∃ front back, front.length = 8 * i.val ∧ ∀ w : Block,
      flat (Function.update r i w) = front ++ (w.val ++ back) := by
  induction n with
  | zero => exact i.elim0
  | succ n ih =>
      cases i using Fin.cases with
      | zero =>
          refine ⟨[], flat fun i => r i.succ, rfl, fun w => ?_⟩
          rw [flat_succ, Function.update_self, List.nil_append]
          rfl
      | succ i =>
          obtain ⟨front, back, hfront, hflat⟩ := ih (fun i => r i.succ) i
          refine ⟨(r 0).val ++ front, back, ?_, fun w => ?_⟩
          · rw [List.length_append, (r 0).property, hfront, Fin.val_succ]
            omega
          · have htail : (fun k : Fin n => Function.update r i.succ w k.succ) =
                Function.update (fun k => r k.succ) i w := by
              funext k
              simp only [Function.update_apply, Fin.succ_inj]
            rw [flat_succ, htail, hflat, Function.update_of_ne (Fin.succ_ne_zero i).symm,
              List.append_assoc]

theorem flat_block (r : Fin n → Block) (i : Fin n) :
    ((flat r).drop (8 * i)).take 8 = (r i).val := by
  obtain ⟨front, back, hfront, hflat⟩ := flat_split r i
  have h := hflat (r i)
  rw [Function.update_eq_self] at h
  rw [h, List.drop_left' hfront, List.take_left' (r i).property]

theorem flat_update (r : Fin n → Block) (i : Fin n) (w : Block) :
    splice (flat r) (8 * i) w.val = flat (Function.update r i w) := by
  obtain ⟨front, back, hfront, hflat⟩ := flat_split r i
  have h := hflat (r i)
  rw [Function.update_eq_self] at h
  have hdrop : (front ++ ((r i).val ++ back)).drop (8 * i + w.val.length) = back := by
    rw [w.property, ← List.drop_drop, List.drop_left' hfront, List.drop_left' (r i).property]
  rw [hflat w, splice, h, List.take_left' hfront, hdrop, List.append_assoc]

theorem exists_flat {b : Bytes} (h : b.length = 8 * n) : ∃ r : Fin n → Block, flat r = b := by
  induction n generalizing b with
  | zero => exact ⟨Fin.elim0, (List.eq_nil_of_length_eq_zero h).symm⟩
  | succ n ih =>
      obtain ⟨r, hr⟩ := ih (b := b.drop 8) (by simp [h]; omega)
      refine ⟨Fin.cons ⟨b.take 8, by simp [h]⟩ r, ?_⟩
      rw [flat_succ]
      simp only [Fin.cons_zero, Fin.cons_succ]
      rw [hr, List.take_append_drop]

/-! ## The code makes the steps of the construction -/

/-- Two half blocks of what the cipher puts out. -/
def halves (b : Bytes) (h : b.length = 16) : Block × Block :=
  (⟨b.take 8, by simp [h]⟩, ⟨b.drop 8, by simp [h]⟩)

theorem halves_append {b : Bytes} (h : b.length = 16) :
    (halves b h).1.val ++ (halves b h).2.val = b :=
  List.take_append_drop 8 b

theorem append_length (p : Block × Block) : (p.1.val ++ p.2.val).length = 16 := by
  rw [List.length_append, p.1.property, p.2.property]

theorem halves_eq {b : Bytes} {p : Block × Block} (h : b.length = 16)
    (heq : b = p.1.val ++ p.2.val) :
    halves b h = p := by
  subst heq
  refine Prod.ext (Subtype.ext ?_) (Subtype.ext ?_)
  · exact List.take_left' p.1.property
  · exact List.drop_left' p.1.property

/-- The cipher as a permutation of two half blocks. -/
def BlockCipher.perm (C : BlockCipher) (key : Bytes) (h : ValidKey key) : Perm (Block × Block) where
  toFun p := halves (C.encrypt key (p.1.val ++ p.2.val)) (C.encrypt_length _ _ (append_length p))
  invFun p := halves (C.decrypt key (p.1.val ++ p.2.val)) (C.decrypt_length _ _ (append_length p))
  left_inv p := by
    refine halves_eq _ ?_
    rw [halves_append, C.decrypt_encrypt key _ h (append_length p)]
  right_inv p := by
    refine halves_eq _ ?_
    rw [halves_append, C.encrypt_decrypt key _ h (append_length p)]

theorem xorLast_concat {b : Bytes} (h : b.length = 7) (x : UInt8) (t : Nat) :
    xorLast (b ++ [x]) t = b ++ [x ^^^ UInt8.ofNat t] := by
  have hlast : (b ++ [x]).getD 7 0 = x := by
    rw [List.getD_append_right _ _ _ _ h.le, h]
    rfl
  rw [xorLast, List.take_left' h, hlast]

theorem exists_concat {a : Bytes} (h : a.length = 8) : ∃ b x, b.length = 7 ∧ a = b ++ [x] := by
  have hne : a ≠ [] := List.ne_nil_of_length_eq_add_one h
  refine ⟨a.dropLast, a.getLast hne, ?_, (List.dropLast_concat_getLast hne).symm⟩
  rw [List.length_dropLast, h]

theorem xorLast_length {a : Bytes} (h : a.length = 8) (t : Nat) : (xorLast a t).length = 8 := by
  simp [xorLast, h]

theorem xorLast_xorLast {a : Bytes} (h : a.length = 8) (t : Nat) : xorLast (xorLast a t) t = a := by
  obtain ⟨b, x, hb, rfl⟩ := exists_concat h
  rw [xorLast_concat hb, xorLast_concat hb, UInt8.xor_assoc, UInt8.xor_self, UInt8.xor_zero]

/-- The number of a step, in the last octet. -/
def mixLast (t : Nat) : Perm Block :=
  Function.Involutive.toPerm (fun a => ⟨xorLast a.val t, xorLast_length a.property t⟩)
    fun a => Subtype.ext (xorLast_xorLast a.property t)

/-- The registers are a state. -/
structure Regs.Is (s : Regs) (x : State Block n) : Prop where
  A : s.A = x.1.val
  R : s.R = flat x.2

variable {C : BlockCipher} {key : Bytes} (hk : ValidKey key)

theorem wrapStep_eq (E : Bytes → Bytes) (j : Nat) (s : Regs) {i : Nat}
    (h : 8 * i + 8 ≤ akwMaxWrapLen) :
    wrapStep E n j s i =
      let B := E (s.A ++ (s.R.drop (8 * i)).take 8)
      some ⟨xorLast (B.take 8) (n * j + i + 1), splice s.R (8 * i) (B.drop 8)⟩ := by
  have hroom : 8 ≤ akwMaxWrapLen - 8 * i := by omega
  simp [wrapStep, copy, hroom]

theorem unwrapStep_eq (D : Bytes → Bytes) (j : Nat) (s : Regs) {i : Nat}
    (h : 8 * i + 8 ≤ akwMaxWrapLen) :
    unwrapStep D n j s i =
      let B := D (xorLast s.A (n * j + i + 1) ++ (s.R.drop (8 * i)).take 8)
      some ⟨B.take 8, splice s.R (8 * i) (B.drop 8)⟩ := by
  have hroom : 8 ≤ akwMaxWrapLen + 8 - 8 * i := by omega
  simp [unwrapStep, copy, hroom]

theorem block_room (hn : n ≤ 48) (i : Fin n) : 8 * i.val + 8 ≤ akwMaxWrapLen := by
  have hi := i.isLt
  unfold akwMaxWrapLen
  omega

theorem wrapStep_is {s : Regs} {x : State Block n} (hn : n ≤ 48) (j : Nat) (i : Fin n)
    (h : s.Is x) :
    ∃ s', wrapStep (C.encrypt key) n j s i = some s' ∧
      s'.Is (step (C.perm key hk) mixLast (n * j + i + 1, i) x) := by
  refine ⟨_, wrapStep_eq _ j s (block_room hn i), ?_, ?_⟩
  · rw [h.A, h.R, flat_block]
    rfl
  · rw [h.A, h.R, flat_block]
    exact flat_update x.2 i (C.perm key hk (x.1, x.2 i)).2

theorem unwrapStep_is {s : Regs} {x : State Block n} (hn : n ≤ 48) (j : Nat) (i : Fin n)
    (h : s.Is x) :
    ∃ s', unwrapStep (C.decrypt key) n j s i = some s' ∧
      s'.Is ((step (C.perm key hk) mixLast (n * j + i + 1, i)).symm x) := by
  refine ⟨_, unwrapStep_eq _ j s (block_room hn i), ?_, ?_⟩
  · rw [h.A, h.R, flat_block]
    rfl
  · rw [h.A, h.R, flat_block]
    exact flat_update x.2 i ((C.perm key hk).symm ((mixLast _).symm x.1, x.2 i)).2

/-- **The loops of `aes_wrap` are the wrapping.** -/
theorem wrapLoops_is {s : Regs} {x : State Block n} (hn : n ≤ 48) (h : s.Is x) :
    ∃ s', wrapLoops (C.encrypt key) n s = some s' ∧ s'.Is (wrap (C.perm key hk) mixLast n x) := by
  rw [Lib.KeyWrap.wrap_apply, wrapLoops]
  have houter :=
    foldlM_simulation (e := id) (l := List.range 6) (R := fun s (x : State Block n) => Regs.Is s x)
    (f := fun s j => (List.range n).foldlM (wrapStep (C.encrypt key) n j) s)
    (g := fun x j => (List.finRange n).foldl
      (fun x (i : Fin n) => step (C.perm key hk) mixLast (n * j + i + 1, i) x) x)
        (fun s x j _ h => ?_) h
  · rwa [List.map_id] at houter
  · rw [← List.map_coe_finRange_eq_range]
    exact foldlM_simulation (fun s x i _ h => wrapStep_is hk hn j i h) h

theorem unwrapLoops_is {s : Regs} {x : State Block n} (hn : n ≤ 48) (h : s.Is x) :
    ∃ s', unwrapLoops (C.decrypt key) n s = some s' ∧
    s'.Is ((wrap (C.perm key hk) mixLast n).symm x) := by
  rw [Lib.KeyWrap.wrap_symm_apply, unwrapLoops]
  have houter := foldlM_simulation (e := id) (l := (List.range 6).reverse)
    (R := fun s (x : State Block n) => Regs.Is s x)
    (f := fun s j => (List.range n).reverse.foldlM (unwrapStep (C.decrypt key) n j) s)
    (g := fun x j => (List.finRange n).reverse.foldl
      (fun x (i : Fin n) => (step (C.perm key hk) mixLast (n * j + i + 1, i)).symm x) x)
        (fun s x j _ h => ?_) h
  · rwa [List.map_id] at houter
  · rw [← List.map_coe_finRange_eq_range, ← List.map_reverse]
    exact foldlM_simulation (fun s x i _ h => unwrapStep_is hk hn j i h) h

/-! ## The functions -/

/-- The octets of a state. -/
def octets (x : State Block n) : Bytes := x.1.val ++ flat x.2

@[simp] theorem octets_length (x : State Block n) : (octets x).length = 8 * n + 8 := by
  rw [octets, List.length_append, x.1.property, flat_length, Nat.add_comm]

theorem octets_register {x y : State Block n} (h : octets x = octets y) : x.1.val = y.1.val :=
  (List.append_inj h (x.1.property.trans y.1.property.symm)).1

/-- The value the register begins with. -/
def iv : Block := ⟨aeskeywrapIV, rfl⟩

theorem aesWrap_eq {il : UInt32} {mem : Mem} {input : Nat} {r : Fin n → Block}
    (hil : il.toNat = 8 * n) (hn : n ≤ 48) (hr : mem.slice input (8 * n) = flat r) (output : Nat) :
    aesWrap C key il mem input output =
      some (0, Mem.write mem output (octets (wrap (C.perm key hk) mixLast n (iv, r)))) := by
  have hstart : Regs.Is ⟨aeskeywrapIV, mem.slice input (8 * n)⟩ (iv, r) := ⟨rfl, hr⟩
  obtain ⟨⟨A, R⟩, hs, hA, hR⟩ := wrapLoops_is (C := C) hk hn hstart
  generalize wrap (C.perm key hk) mixLast n (iv, r) = y at hA hR ⊢
  simp only at hA hR
  have hmax : 8 * n ≤ akwMaxWrapLen := Nat.mul_le_mul_left 8 hn
  have hadmitted : ¬(¬ValidKey key ∨ akwMaxWrapLen < 8 * n ∨ 8 * n % 8 ≠ 0) := by
    simp only [hk, not_true, false_or]
    omega
  have hout : Mem.write (Mem.write mem output A) (output + 8) R =
      Mem.write mem output (octets y) := by
    rw [hA, hR, octets, ← write_append, y.1.property]
  simp only [aesWrap, hil, if_neg hadmitted, Nat.mul_div_cancel_left n (show 0 < 8 by omega),
    copy_ok (show 8 ≤ 8 by omega) (show 8 ≤ 16 by omega), copy_ok (le_refl (8 * n)) hmax, hs,
    copy_ok hmax (le_refl (8 * n)), copy_ok (show 8 ≤ 16 by omega) (show 8 ≤ 8 * n + 8 by omega),
    Option.bind_eq_bind, Option.bind_some, hout]

theorem toNat_sub_eight {il : UInt32} {k : Nat} (h : il.toNat = k + 8) : (il - 8).toNat = k := by
  have hle : (8 : UInt32) ≤ il := UInt32.le_iff_toNat_le.mpr (by rw [h]; exact Nat.le_add_left 8 k)
  rw [UInt32.toNat_sub_of_le _ _ hle, h]
  rfl

theorem aesUnwrap_eq {il : UInt32} {mem : Mem} {input : Nat} {x : State Block n}
    (hil : il.toNat = 8 * n + 8) (hn : n ≤ 48) (hx : mem.slice input (8 * n + 8) = octets x)
    (output : Nat) :
    aesUnwrap C key il mem input output =
      if ((wrap (C.perm key hk) mixLast n).symm x).1 = iv then
        some (0, Mem.write mem output (flat ((wrap (C.perm key hk) mixLast n).symm x).2))
      else some (1, mem) := by
  have hparts : mem.slice input 8 = x.1.val ∧ mem.slice (input + 8) (8 * n) = flat x.2 := by
    rw [Nat.add_comm, Nas.Mem.slice_add, octets] at hx
    exact List.append_inj hx (by rw [Nas.Mem.slice_length, x.1.property])
  have hstart : Regs.Is ⟨mem.slice input 8, mem.slice (input + 8) (8 * n)⟩ x := ⟨hparts.1, hparts.2⟩
  obtain ⟨⟨A, R⟩, hs, hA, hR⟩ := unwrapLoops_is (C := C) hk hn hstart
  generalize (wrap (C.perm key hk) mixLast n).symm x = y at hA hR ⊢
  simp only at hA hR
  have hmax : 8 * n ≤ akwMaxWrapLen + 8 := Nat.le_add_right_of_le (Nat.mul_le_mul_left 8 hn)
  have hadmitted : ¬(¬ValidKey key ∨ akwMaxWrapLen + 8 < 8 * n + 8 ∨ (8 * n + 8) % 8 ≠ 0) := by
    have hle : 8 * n ≤ akwMaxWrapLen := Nat.mul_le_mul_left 8 hn
    simp only [hk, not_true, false_or]
    omega
  have hiv : A = aeskeywrapIV ↔ y.1 = iv := by
    rw [hA]
    exact ⟨fun h => Subtype.ext h, fun h => congrArg Subtype.val h⟩
  simp only [aesUnwrap, toNat_sub_eight hil, hil, if_neg hadmitted,
    Nat.mul_div_cancel_left n (show 0 < 8 by omega),
    copy_ok (show 8 ≤ 8 * n + 8 by omega) (show 8 ≤ 16 by omega), Nat.add_sub_cancel,
    copy_ok (le_refl (8 * n)) hmax, hs, copy_ok hmax (Nat.le_add_right (8 * n) 8),
    Option.bind_eq_bind, Option.bind_some, hiv, hR]

theorem exists_octets {b : Bytes} (h : b.length = 8 * n + 8) :
    ∃ x : State Block n, octets x = b := by
  obtain ⟨r, hr⟩ :=
    exists_flat (b := b.drop 8) (n := n) (by rw [List.length_drop, h, Nat.add_sub_cancel])
  refine ⟨(⟨b.take 8, by simp [h]⟩, r), ?_⟩
  rw [octets, hr]
  exact List.take_append_drop 8 b

theorem toNat_add_eight {il : UInt32} {k : Nat} (h : il.toNat = k) (hk : k ≤ akwMaxWrapLen) :
    (il + 8).toNat = k + 8 := by
  unfold akwMaxWrapLen at hk
  have height : (8 : UInt32).toNat = 8 := rfl
  rw [UInt32.toNat_add, h, height]
  omega

theorem unwrap_wrap (hk : ValidKey key) {il : UInt32} (mem : Mem) (input output output' : Nat)
    (hil : il.toNat = 8 * n) (hn : n ≤ 48) :
    ∃ mem' mem'', aesWrap C key il mem input output = some (0, mem') ∧
      aesUnwrap C key (il + 8) mem' output output' = some (0, mem'') ∧
      mem''.slice output' (8 * n) = mem.slice input (8 * n) := by
  obtain ⟨r, hr⟩ := exists_flat (Nas.Mem.slice_length mem input (8 * n))
  have hwrap := aesWrap_eq (C := C) hk hil hn hr.symm output
  generalize hx : wrap (C.perm key hk) mixLast n (iv, r) = x at hwrap
  have hread := write_slice mem output (octets x)
  rw [octets_length] at hread
  have hunwrap :=
    aesUnwrap_eq (C := C) hk (toNat_add_eight hil (Nat.mul_le_mul_left 8 hn)) hn hread output'
  rw [← hx, Equiv.symm_apply_apply, if_pos rfl] at hunwrap
  refine ⟨_, _, hwrap, hx ▸ hunwrap, ?_⟩
  have hout := write_slice (Mem.write mem output (octets x)) output' (flat r)
  rw [flat_length, hr] at hout
  rw [← hr] at hout ⊢
  exact hx ▸ hout

theorem wrap_unwrap (hk : ValidKey key) {il : UInt32} {mem mem' : Mem} {input output : Nat}
    (hil : il.toNat = 8 * n + 8) (hn : n ≤ 48)
    (h : aesUnwrap C key il mem input output = some (0, mem')) (output' : Nat) :
    ∃ mem'', aesWrap C key (il - 8) mem' output output' = some (0, mem'') ∧
      mem''.slice output' (8 * n + 8) = mem.slice input (8 * n + 8) := by
  obtain ⟨x, hx⟩ := exists_octets (Nas.Mem.slice_length mem input (8 * n + 8))
  rw [aesUnwrap_eq (C := C) hk hil hn hx.symm output] at h
  split at h
  · rename_i hiv
    generalize hy : (wrap (C.perm key hk) mixLast n).symm x = y at h hiv
    obtain ⟨a, r⟩ := y
    simp only at hiv
    subst hiv
    rw [Option.some.injEq, Prod.mk.injEq] at h
    have hread := write_slice mem output (flat r)
    rw [flat_length, h.2] at hread
    refine ⟨_, aesWrap_eq (C := C) hk (toNat_sub_eight hil) hn hread output', ?_⟩
    rw [← hy, Equiv.apply_symm_apply]
    have hout := write_slice mem' output' (octets x)
    rw [octets_length] at hout
    rw [hout, hx]
  · cases h

/-- **Unwrapping inverts wrapping, and succeeds for nothing else**, wherever input and
output are. -/
theorem key_wrap_inverse (C : BlockCipher) {key : Bytes} (hk : ValidKey key) :
    (∀ (il : UInt32) (mem : Mem) (input output output' : Nat), 0 < il.toNat → il.toNat % 8 = 0 →
      il.toNat ≤ akwMaxWrapLen →
        ∃ mem' mem'', aesWrap C key il mem input output = some (0, mem') ∧
          aesUnwrap C key (il + 8) mem' output output' = some (0, mem'') ∧
          mem''.slice output' il.toNat = mem.slice input il.toNat) ∧
      ∀ (il : UInt32) (mem : Mem) (input output : Nat) (mem' : Mem), 16 ≤ il.toNat →
      il.toNat ≤ akwMaxWrapLen + 8 →
        il.toNat % 8 = 0 → aesUnwrap C key il mem input output = some (0, mem') →
          ∀ output', ∃ mem'', aesWrap C key (il - 8) mem' output output' = some (0, mem'') ∧
            mem''.slice output' il.toNat = mem.slice input il.toNat := by
  constructor
  · intro il mem input output output' _ hmul hmax
    unfold akwMaxWrapLen at hmax
    have hil : il.toNat = 8 * (il.toNat / 8) := by omega
    have h := unwrap_wrap (C := C) hk mem input output output' hil (by omega)
    rwa [← hil] at h
  · intro il mem input output mem' hmin hmax hmul h output'
    unfold akwMaxWrapLen at hmax
    have hil : il.toNat = 8 * (il.toNat / 8 - 1) + 8 := by omega
    have hwrap := wrap_unwrap hk hil (by omega) h output'
    rwa [← hil] at hwrap

/-- The cipher that changes nothing. -/
def noCipher : BlockCipher where
  encrypt _ block := block
  decrypt _ block := block
  encrypt_length _ _ h := h
  decrypt_length _ _ h := h
  decrypt_encrypt _ _ _ _ := rfl
  encrypt_decrypt _ _ _ _ := rfl

/-- Two half blocks that are wrapped, unwrapped and wrapped again in place. -/
theorem key_wrap_inverse_in_place : ∃ mem mem' mem'' : Mem,
    aesUnwrap noCipher (List.replicate 16 0) 24 mem 0 0 = some (0, mem') ∧
      aesWrap noCipher (List.replicate 16 0) 16 mem' 0 0 = some (0, mem'') ∧
      mem''.slice 0 24 = mem.slice 0 24 := by
  have hk : ValidKey (List.replicate 16 0) := .inl rfl
  obtain ⟨mem, mem', -, hunwrap, -⟩ :=
    (key_wrap_inverse noCipher hk).1 16 (fun _ => 0) 0 0 0 (by decide) (by decide) (by decide)
  obtain ⟨mem'', hwrap, hread⟩ :=
    (key_wrap_inverse noCipher hk).2 24 mem 0 0 mem' (by decide) (by decide) (by decide) hunwrap 0
  exact ⟨mem, mem', mem'', hunwrap, hwrap, hread⟩

/-! ## The numbers of the steps -/

/-- The exclusive or with a number of 64 bits. -/
def xor64 (a : Bytes) (t : Nat) : Bytes := List.zipWith (· ^^^ ·) a (beBytes 8 t)

theorem xor64_length {a : Bytes} (h : a.length = 8) (t : Nat) : (xor64 a t).length = 8 := by
  simp [xor64, h]

theorem zipWith_xor_self : ∀ {a b : Bytes}, a.length = b.length →
    List.zipWith (· ^^^ ·) (List.zipWith (· ^^^ ·) a b) b = a
  | [], [], _ => rfl
  | x :: a, y :: b, h => by
    rw [List.zipWith_cons_cons, List.zipWith_cons_cons, zipWith_xor_self (Nat.succ.inj h),
      UInt8.xor_assoc, UInt8.xor_self, UInt8.xor_zero]

theorem xor64_xor64 {a : Bytes} (h : a.length = 8) (t : Nat) : xor64 (xor64 a t) t = a :=
  zipWith_xor_self (by rw [h, beBytes_length])

/-- The number of a step, in all of the register. -/
def mixFull (t : Nat) : Perm Block :=
  Function.Involutive.toPerm (fun a => ⟨xor64 a.val t, xor64_length a.property t⟩)
    fun a => Subtype.ext (xor64_xor64 a.property t)

/-- **The wrapping of RFC 3394.** -/
def rfcWrap (C : BlockCipher) (key : Bytes) (hk : ValidKey key) (r : Fin n → Block) : Bytes :=
  octets (wrap (C.perm key hk) mixFull n (iv, r))

theorem beBytes_of_lt {t : Nat} (h : t < 256) :
    beBytes 8 t = List.replicate 7 0 ++ [UInt8.ofNat t] := by
  have hzero : ∀ k, 0 < k → t >>> (8 * k) = 0 := by
    intro k hk
    have hpow : 256 ≤ 2 ^ (8 * k) :=
      Nat.pow_le_pow_right (n := 2) (by omega) (show 8 ≤ 8 * k by omega)
    rw [Nat.shiftRight_eq_div_pow, Nat.div_eq_of_lt (by omega)]
  simp only [beBytes, hzero 7 (by omega), hzero 6 (by omega), hzero 5 (by omega),
    hzero 4 (by omega), hzero 3 (by omega), hzero 2 (by omega), hzero 1 (by omega)]
  rfl

theorem zipWith_xor_zeros (b : Bytes) :
    List.zipWith (· ^^^ ·) b (List.replicate b.length 0) = b := by
  induction b with
  | nil => rfl
  | cons x b ih =>
    rw [List.length_cons, List.replicate_succ, List.zipWith_cons_cons, ih, UInt8.xor_zero]

theorem mixLast_eq_mixFull {t : Nat} (h : t < 256) : mixLast t = mixFull t := by
  refine Equiv.ext fun a => Subtype.ext ?_
  obtain ⟨a, ha⟩ := a
  obtain ⟨b, x, hb, rfl⟩ := exists_concat ha
  have hfront := zipWith_xor_zeros b
  rw [hb] at hfront
  have hfull : xor64 (b ++ [x]) t = b ++ [x ^^^ UInt8.ofNat t] := by
    rw [xor64, beBytes_of_lt h, List.zipWith_append (by simp [hb]), hfront]
    rfl
  exact (xorLast_concat hb x t).trans hfull.symm

theorem noCipher_perm : noCipher.perm key hk = 1 := by
  refine Equiv.ext fun p => ?_
  exact halves_eq (append_length p) rfl

theorem foldl_mixLast (L : List Nat) (a : Block) :
    (L.foldl (fun a t => mixLast t a) a).val.take 7 = a.val.take 7 := by
  induction L generalizing a with
  | nil => rfl
  | cons t L ih =>
      rw [List.foldl_cons, ih]
      exact List.take_left' (by rw [List.length_take, a.property]; rfl)

theorem foldl_mixFull (L : List Nat) (a : Block) :
    (L.foldl (fun a t => mixFull t a) a).val = L.foldl xor64 a.val := by
  induction L generalizing a with
  | nil => rfl
  | cons t L ih => exact ih (mixFull t a)

set_option maxRecDepth 100000 in
theorem xor64_numbers : ∀ n, 43 ≤ n → n ≤ 48 →
    (((List.range (6 * n)).map (· + 1)).foldl xor64 aeskeywrapIV).take 7 ≠ aeskeywrapIV.take 7 := by
  intro n hmin hmax
  interval_cases n <;> decide +kernel

theorem wrap_read (C : BlockCipher) {il : UInt32} {mem : Mem} {input : Nat} {r : Fin n → Block}
    (hil : il.toNat = 8 * n) (hn : n ≤ 48) (hr : flat r = mem.slice input il.toNat) (output : Nat) :
    ∃ mem', aesWrap C key il mem input output = some (0, mem') ∧
      mem'.slice output (il.toNat + 8) = octets (wrap (C.perm key hk) mixLast n (iv, r)) := by
  have hread := write_slice mem output (octets (wrap (C.perm key hk) mixLast n (iv, r)))
  rw [octets_length, ← hil] at hread
  rw [hil] at hr
  exact ⟨_, aesWrap_eq hk hil hn hr.symm output, hread⟩

/-- Without a cipher the registers differ where there are more than 255 steps. -/
theorem noCipher_differs (hmin : 43 ≤ n) (hmax : n ≤ 48) (r : Fin n → Block) :
    octets (wrap (noCipher.perm key hk) mixLast n (iv, r)) ≠ rfcWrap noCipher key hk r := by
  intro heq
  have hregister := octets_register heq
  rw [noCipher_perm, Lib.KeyWrap.wrap_one_fst, Lib.KeyWrap.wrap_one_fst, Lib.KeyWrap.steps_fst,
    foldl_mixFull]
    at hregister
  refine xor64_numbers n hmin hmax ?_
  have hlast := foldl_mixLast ((List.range (6 * n)).map (· + 1)) iv
  rw [hregister] at hlast
  exact hlast

/-- **For which lengths `aes_wrap` is the wrapping of RFC 3394, whatever the cipher.** -/
theorem wrap_conforms_iff {key : Bytes} (hk : ValidKey key) {il : UInt32} (hil : il.toNat = 8 * n)
    (_ : 16 ≤ il.toNat) (hmax : il.toNat ≤ akwMaxWrapLen) (mem : Mem) (input output : Nat)
    {r : Fin n → Block}
    (hr : flat r = mem.slice input il.toNat) :
    (∀ C : BlockCipher, ∃ mem', aesWrap C key il mem input output = some (0, mem') ∧
      mem'.slice output (il.toNat + 8) = rfcWrap C key hk r) ↔ il.toNat ≤ 336 := by
  unfold akwMaxWrapLen at hmax
  constructor
  · intro hconforms
    by_contra hlong
    obtain ⟨mem', hcode, hread⟩ := wrap_read hk noCipher hil (by omega) hr output
    obtain ⟨mem'', hcode', hrfc⟩ := hconforms noCipher
    rw [hcode, Option.some.injEq, Prod.mk.injEq] at hcode'
    rw [← hcode'.2, hread] at hrfc
    exact noCipher_differs hk (by omega) (by omega) r hrfc
  · intro hshort C
    obtain ⟨mem', hcode, hread⟩ := wrap_read hk C hil (by omega) hr output
    refine ⟨mem', hcode, hread.trans ?_⟩
    rw [rfcWrap, Lib.KeyWrap.wrap_congr (C.perm key hk) fun t _ ht => mixLast_eq_mixFull (by omega)]

/-- Two half blocks. -/
theorem wrap_conforms_iff_two : (∀ C : BlockCipher, ∃ mem',
    aesWrap C (List.replicate 16 0) 16 (fun _ => 0) 0 0 = some (0, mem') ∧
      mem'.slice 0 24 = rfcWrap C (List.replicate 16 0) (.inl rfl) fun _ : Fin 2 =>
        ⟨List.replicate 8 0, rfl⟩) ↔
    (16 : UInt32).toNat ≤ 336 :=
  wrap_conforms_iff (n := 2) (.inl rfl) rfl (by decide) (by decide) (fun _ => 0) 0 0 rfl

/-- Forty-three half blocks make 258 steps. -/
theorem steps_overflow :
    ∃ mem', aesWrap noCipher (List.replicate 16 0) 344 (fun _ => 0) 0 0 = some (0, mem') ∧
      mem'.slice 0 352 ≠
        rfcWrap noCipher (List.replicate 16 0) (.inl rfl) fun _ : Fin 43 =>
          ⟨List.replicate 8 0, rfl⟩ := by
  have hk : ValidKey (List.replicate 16 0) := .inl rfl
  have hinput : flat (fun _ : Fin 43 => (⟨List.replicate 8 0, rfl⟩ : Block)) =
      Nas.Mem.slice (fun _ => 0) 0 344 := by
    decide +kernel
  have hil : (344 : UInt32).toNat = 8 * 43 := rfl
  obtain ⟨mem', hcode, hread⟩ := wrap_read hk noCipher hil (by decide) hinput 0
  exact ⟨mem', hcode, fun heq =>
    noCipher_differs hk (by decide) (by decide) _ (hread.symm.trans heq)⟩

/-! ## Lengths -/

/-- What `aes_unwrap` is allowed to do: return 1, or write at most `il - 8` octets. -/
def Safe (C : BlockCipher) (key : Bytes) (il : UInt32) (mem : Mem) (input output : Nat) : Prop :=
  ∃ ret mem', aesUnwrap C key il mem input output = some (ret, mem') ∧
    (ret = 1 ∨ 8 ≤ il.toNat ∧ ∀ addr, mem' addr ≠ mem addr →
      output ≤ addr ∧ addr < output + (il.toNat - 8))

theorem aesUnwrap_rejected (C : BlockCipher) {key : Bytes} {il : UInt32} (mem : Mem)
    (input output : Nat) (h : ¬ValidKey key ∨ akwMaxWrapLen + 8 < il.toNat ∨ il.toNat % 8 ≠ 0) :
    aesUnwrap C key il mem input output = some (1, mem) := by
  simp only [aesUnwrap, if_pos h]

theorem aesUnwrap_zero (C : BlockCipher) {key : Bytes} (hk : ValidKey key) (mem : Mem)
    (input output : Nat) :
    aesUnwrap C key 0 mem input output = none := by
  simp [aesUnwrap, hk, copy, akwMaxWrapLen]

theorem safe_of_length (C : BlockCipher) {key : Bytes} (hk : ValidKey key) {il : UInt32}
    (hil : il.toNat = 8 * n + 8) (hn : n ≤ 48) (mem : Mem) (input output : Nat) :
    Safe C key il mem input output := by
  obtain ⟨x, hx⟩ := exists_octets (Nas.Mem.slice_length mem input (8 * n + 8))
  have hunwrap := aesUnwrap_eq (C := C) hk hil hn hx.symm output
  split at hunwrap
  · refine ⟨0, _, hunwrap, .inr ⟨by omega, fun addr haddr => ?_⟩⟩
    by_contra hout
    refine haddr (write_apply_of_not_mem ?_)
    rwa [flat_length, show 8 * n = il.toNat - 8 by omega]
  · exact ⟨1, mem, hunwrap, .inl rfl⟩

/-- **For which lengths `aes_unwrap` stays inside its buffers.** -/
theorem unwrap_safe_iff (C : BlockCipher) (key : Bytes) (il : UInt32) (mem : Mem)
    (input output : Nat) :
    Safe C key il mem input output ↔ ¬ValidKey key ∨ il ≠ 0 := by
  constructor
  · intro hsafe
    by_contra hcond
    rw [not_or, not_not, not_not] at hcond
    obtain ⟨ret, mem', hret, -⟩ := hsafe
    rw [hcond.2, aesUnwrap_zero C hcond.1] at hret
    cases hret
  · intro hcond
    by_cases hrejected : ¬ValidKey key ∨ akwMaxWrapLen + 8 < il.toNat ∨ il.toNat % 8 ≠ 0
    · exact ⟨1, mem, aesUnwrap_rejected C mem input output hrejected, .inl rfl⟩
    · rw [not_or, not_not, not_or, not_lt, not_not] at hrejected
      obtain ⟨hk, hmax, hmul⟩ := hrejected
      have hpos : il.toNat ≠ 0 := by
        intro hzero
        cases hcond with
        | inl hkey => exact hkey hk
        | inr hne => exact hne (UInt32.toNat_inj.mp hzero)
      unfold akwMaxWrapLen at hmax
      exact safe_of_length C hk (n := il.toNat / 8 - 1) (by omega) (by omega) mem input output

/-- No octets: the length of the output is counted from the top of its type. -/
theorem empty_input_unsafe :
    ((0 : UInt32) - 8).toNat = 4294967288 ∧
    ¬Safe noCipher (List.replicate 16 0) 0 (fun _ => 0) 0 0 := by
  refine ⟨rfl, fun hsafe => ?_⟩
  obtain ⟨ret, mem', hret, -⟩ := hsafe
  rw [aesUnwrap_zero noCipher (.inl rfl)] at hret
  cases hret

end BroadcomWl.Crypto.KeyWrap
