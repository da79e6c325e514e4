import Mathlib

/-!
# Chaining blocks

The chaining of a block cipher over any type of blocks, with any way to put two of them together. In
a chain each block is put together with the one before it, or with a first value, and enciphered.

**Deciphering** takes a chain apart (`cbcDecrypt_cbcEncrypt`), if putting together can be undone and
the ciphers are inverse to each other. It needs the enciphered blocks: `chainOutput` is what comes
out when it goes on with its own output in their place.

**Authentication.** `cbcMac` keeps the last block only.

**Feedback.** A chain may also be made without a cipher that has an inverse: each block is put
together with a pad that depends on the enciphered block before it (`cfbDecrypt_cfbEncrypt`).

**Blocks of a string.** A string is cut into blocks, the last one filled up (`blocksOf`). Taken in
cell by cell, with the cipher after each full block, it gives the same chain (`flush_absorb`). -/

namespace BroadcomWl.Lib.BlockModes

variable {X : Type} (add : X → X → X) (E D : X → X)

/-- Cipher block chaining. -/
def cbcEncrypt : X → List X → List X
  | _, [] => []
  | iv, p :: ps => E (add iv p) :: cbcEncrypt (E (add iv p)) ps

def cbcDecrypt : X → List X → List X
  | _, [] => []
  | iv, c :: cs => add (D c) iv :: cbcDecrypt c cs

/-- A decryption that chains its output. -/
def chainOutput : X → List X → List X
  | _, [] => []
  | iv, c :: cs => add (D c) iv :: chainOutput (add (D c) iv) cs

/-- The last block of a chain. -/
def cbcMac (iv : X) (ps : List X) : X := ps.foldl (fun x p => E (add x p)) iv

variable {add E D}

/-- **The inverse.** -/
theorem cbcDecrypt_cbcEncrypt (hadd : ∀ a b, add (add a b) a = b) (hE : ∀ x, D (E x) = x) (iv : X)
    (ps : List X) :
    cbcDecrypt add D iv (cbcEncrypt add E iv ps) = ps := by
  induction ps generalizing iv with
  | nil => rfl
  | cons p ps ih => rw [cbcEncrypt, cbcDecrypt, hE, hadd, ih]

theorem cbcEncrypt_getLastD (iv : X) (ps : List X) :
    (cbcEncrypt add E iv ps).getLastD iv = cbcMac add E iv ps := by
  induction ps generalizing iv with
  | nil => rfl
  | cons p ps ih => rw [cbcEncrypt, List.getLastD_cons, ih, cbcMac, cbcMac, List.foldl_cons]

theorem cbcEncrypt_concat (iv : X) (ps : List X) (p : X) :
    cbcEncrypt add E iv (ps ++ [p]) =
      cbcEncrypt add E iv ps ++ [E (add (cbcMac add E iv ps) p)] := by
  induction ps generalizing iv with
  | nil => rfl
  | cons q ps ih =>
    rw [List.cons_append, cbcEncrypt, ih, cbcEncrypt, cbcMac, cbcMac, List.foldl_cons,
      List.cons_append]

theorem cbcMac_append (iv : X) (ps qs : List X) :
    cbcMac add E iv (ps ++ qs) = cbcMac add E (cbcMac add E iv ps) qs :=
  List.foldl_append

/-! ## Feedback -/

section

variable {Y : Type} (add : X → X → X) (pad : Y → X) (chain : X → Y)

/-- Cipher feedback: the pad of a block comes from what is kept of the one before it. -/
def cfbEncrypt : Y → List X → List X
  | _, [] => []
  | y, p :: ps => add p (pad y) :: cfbEncrypt (chain (add p (pad y))) ps

def cfbDecrypt : Y → List X → List X
  | _, [] => []
  | y, c :: cs => add c (pad y) :: cfbDecrypt (chain c) cs

variable {add pad chain}

/-- **The inverse**, whatever the pads are. -/
theorem cfbDecrypt_cfbEncrypt (hadd : ∀ a b, add (add a b) b = a) (y : Y) (ps : List X) :
    cfbDecrypt add pad chain y (cfbEncrypt add pad chain y ps) = ps := by
  induction ps generalizing y with
  | nil => rfl
  | cons p ps ih => rw [cfbEncrypt, cfbDecrypt, hadd, ih]

end

/-! ## Blocks of a string -/

section

variable {α : Type} {n : Nat} (op : α → α → α) (zero : α)

/-- The blocks of a string. -/
def blocksOf (n : Nat) (l : List α) : List (Fin n → α) :=
  (List.range ((l.length + n - 1) / n)).map fun q j => l.getD (n * q + j) zero

/-- Two blocks put together cell by cell. -/
def addBlock (a b : Fin n → α) : Fin n → α := fun i => op (a i) (b i)

/-- One more cell at a place of the block; a full block is enciphered. -/
def absorb (E : (Fin n → α) → Fin n → α) (s : (Fin n → α) × Nat) (b : α) : (Fin n → α) × Nat :=
  let x : Fin n → α := fun i => if i = s.2 then op (s.1 i) b else s.1 i
  if s.2 + 1 = n then (E x, 0) else (x, s.2 + 1)

/-- The last block, which need not be full. -/
def flush (E : (Fin n → α) → Fin n → α) (s : (Fin n → α) × Nat) : Fin n → α :=
  if s.2 = 0 then s.1 else E s.1

variable {E : (Fin n → α) → Fin n → α} {l : List α}

theorem blocksOf_nil (hn : 0 < n) : blocksOf zero n [] = [] := by
  rw [blocksOf, List.length_nil, Nat.zero_add, Nat.div_eq_of_lt (by omega)]
  rfl

theorem blocksOf_cons (hn : 0 < n) (hl : l ≠ []) :
    blocksOf zero n l = (fun j : Fin n => l.getD j zero) :: blocksOf zero n (l.drop n) := by
  have hpos := List.length_pos_iff.mpr hl
  have hcount : (l.length + n - 1) / n = ((l.drop n).length + n - 1) / n + 1 := by
    rw [List.length_drop, show l.length + n - 1 = l.length - 1 + n by omega, Nat.add_div_right _ hn]
    by_cases hle : n ≤ l.length
    · rw [Nat.sub_add_cancel hle]
    · rw [Nat.div_eq_of_lt (by omega), Nat.div_eq_of_lt (by omega)]
  rw [blocksOf, hcount, List.range_succ_eq_map, List.map_cons, List.map_map, blocksOf]
  refine congrArg₂ _ ?_ (List.map_congr_left fun q _ => ?_)
  · funext j
    rw [Nat.mul_zero, Nat.zero_add]
  · funext j
    simp only [Function.comp_apply, List.getD_eq_getElem?_getD, List.getElem?_drop]
    congr 2
    rw [Nat.mul_succ]
    omega

theorem foldl_absorb {x : Fin n → α} {k : Nat} (h : k + l.length < n) :
    l.foldl (absorb op E) (x, k) =
      (fun i : Fin n => if k ≤ i ∧ i < k + l.length then op (x i) (l.getD (i - k) zero) else x i,
        k + l.length) := by
  induction l generalizing x k with
  | nil =>
      rw [List.foldl_nil, List.length_nil, Nat.add_zero]
      congr 1
      funext i
      rw [if_neg (by omega)]
  | cons b l ih =>
      rw [List.length_cons] at h
      rw [List.foldl_cons, absorb, if_neg (by simp only; omega), ih (by simp only; omega),
        List.length_cons]
      refine Prod.ext (funext fun i => ?_) (by simp only; omega)
      simp only
      by_cases hk : (i : Nat) = k
      · rw [if_neg (by omega), if_pos hk, if_pos (by omega), hk, Nat.sub_self]
        rfl
      · by_cases hin : k ≤ i ∧ i < k + (l.length + 1)
        · rw [if_pos (by omega), if_neg hk, if_pos hin, show i.val - k =
            i.val - (k + 1) + 1 by omega]
          rfl
        · rw [if_neg (by omega), if_neg hk, if_neg hin]

theorem foldl_absorb_full (hl : l.length = n) (hn : 0 < n) (x : Fin n → α) :
    l.foldl (absorb op E) (x, 0) = (E (addBlock op x fun j => l.getD j zero), 0) := by
  have hne : l ≠ [] := List.length_pos_iff.mp (by omega)
  have hfront : l.dropLast.length = n - 1 := by rw [List.length_dropLast, hl]
  have hlast : l.getLast hne = l.getD (n - 1) zero := by
    rw [List.getLast_eq_getElem, List.getD_eq_getElem _ _ (by omega)]
    congr 1
    omega
  have hshort := foldl_absorb op zero (E := E) (l := l.dropLast) (x := x) (k := 0) (by omega)
  conv_lhs => rw [← List.dropLast_concat_getLast hne]
  rw [List.foldl_append, hshort, List.foldl_cons, List.foldl_nil, absorb,
    if_pos (by simp only; omega)]
  congr 2
  funext i
  have hi := i.isLt
  simp only [Nat.zero_add, Nat.zero_le, true_and, Nat.sub_zero, hfront, addBlock]
  by_cases hlt : (i : Nat) < n - 1
  · rw [if_neg (by omega), if_pos hlt, List.getD_eq_getElem _ _ (by omega),
      List.getD_eq_getElem _ _ (by omega), List.getElem_dropLast]
  · rw [if_pos (by omega), if_neg hlt, hlast, show (i : Nat) = n - 1 by omega]

/-- **Cell by cell or block by block.** -/
theorem flush_absorb (hzero : ∀ a, op a zero = a) (hn : 0 < n) (x : Fin n → α) (l : List α) :
    flush E (l.foldl (absorb op E) (x, 0)) = cbcMac (addBlock op) E x (blocksOf zero n l) := by
  obtain ⟨size, hsize⟩ : ∃ size, size = l.length := ⟨_, rfl⟩
  induction size using Nat.strong_induction_on generalizing x l with
  | _ size ih =>
      by_cases hshort : l.length < n
      · rw [foldl_absorb op zero (by omega), flush]
        by_cases hnil : l = []
        · subst hnil
          rw [blocksOf_nil zero hn]
          simp [cbcMac]
        · have hpos := List.length_pos_iff.mpr hnil
          rw [if_neg (by simp only; omega), blocksOf_cons zero hn hnil,
            List.drop_eq_nil_of_le (by omega), blocksOf_nil zero hn, cbcMac, List.foldl_cons,
            List.foldl_nil]
          congr 1
          funext i
          simp only [Nat.zero_add, Nat.zero_le, true_and, Nat.sub_zero, addBlock]
          by_cases hi : (i : Nat) < l.length
          · rw [if_pos hi]
          · rw [if_neg hi, List.getD_eq_default _ _ (by omega), hzero]
      · have hnil : l ≠ [] := List.length_pos_iff.mp (by omega)
        have hfirst : (l.take n).length = n := List.length_take_of_le (by omega)
        have hblock : (fun j : Fin n => (l.take n).getD j zero) = fun j : Fin n =>
            l.getD j zero := by
          funext j
          rw [List.getD_eq_getElem?_getD,
            List.getElem?_take_of_lt j.isLt, ← List.getD_eq_getElem?_getD]
        conv_lhs => rw [← List.take_append_drop n l]
        rw [List.foldl_append, foldl_absorb_full op zero hfirst hn, hblock,
          ih (l.drop n).length (by rw [List.length_drop]; omega) _ _ rfl,
          blocksOf_cons zero hn hnil, cbcMac, cbcMac, List.foldl_cons]

end

end BroadcomWl.Lib.BlockModes
