import BroadcomWl.Crypto.Rijndael

/-!
# The key wrap of nas

`nas` takes `aes_wrap` and `aes_unwrap` as functions of octets (`bcmcrypto`), which go over lists of
blocks. The code in memory steps through arrays, with the block functions of `rijndael-alg-fst.c`.
`aes_wrap_nas` says that for a key of 16 octets they are the same, whatever is in memory.

A pass of the construction changes the register and one block at a time; over distinct blocks it is
a recursion over their list (`foldl_update`). -/

namespace BroadcomWl.Crypto.KeyWrap

open BroadcomWl.Nas (Bytes Mem)
open BroadcomWl.Lib.KeyWrap (State step wrap)
open Equiv (Perm)

/-! ## Passes -/

section

variable {ι A W : Type} [DecidableEq ι] (f : ι → A → W → A × W)

/-- A pass over some blocks. -/
def passOver (r : ι → W) : List ι → A → A × List W
  | [], a => (a, [])
  | i :: l, a =>
    let b := f i a (r i)
    let p := passOver r l b.1
    (p.1, b.2 :: p.2)

omit [DecidableEq ι] in
theorem passOver_congr {r r' : ι → W} {l : List ι} (h : ∀ i ∈ l, r i = r' i) (a : A) :
    passOver f r l a = passOver f r' l a := by
  induction l generalizing a with
  | nil => rfl
  | cons i l ih =>
      simp only [passOver]
      rw [h i List.mem_cons_self, ih fun j hj => h j (List.mem_cons_of_mem i hj)]

/-- One block at a time. -/
def updateAt (x : A × (ι → W)) (i : ι) : A × (ι → W) :=
  ((f i x.1 (x.2 i)).1, Function.update x.2 i (f i x.1 (x.2 i)).2)

theorem foldl_update_of_not_mem {l : List ι} {i : ι} (hi : i ∉ l) (x : A × (ι → W)) :
    (l.foldl (updateAt f) x).2 i = x.2 i := by
  induction l generalizing x with
  | nil => rfl
  | cons j l ih =>
      rw [List.foldl_cons, ih fun hmem => hi (List.mem_cons_of_mem j hmem)]
      refine Function.update_of_ne ?_ _ _
      rintro rfl
      exact hi List.mem_cons_self

/-- **Changing distinct blocks one at a time** is a recursion over their list. -/
theorem foldl_update {l : List ι} (hl : l.Nodup) (a : A) (r : ι → W) :
    ((l.foldl (updateAt f) (a, r)).1, l.map (l.foldl (updateAt f) (a, r)).2) =
      passOver f r l a := by
  induction l generalizing a r with
  | nil => rfl
  | cons i l ih =>
      obtain ⟨hi, hl⟩ := List.nodup_cons.mp hl
      obtain ⟨b, hb⟩ : ∃ b, b = f i a (r i) := ⟨_, rfl⟩
      have hrest := ih hl b.1 (Function.update r i b.2)
      have hsame : passOver f (Function.update r i b.2) l b.1 = passOver f r l b.1 := by
        refine passOver_congr f (fun j hj => Function.update_of_ne ?_ _ _) b.1
        rintro rfl
        exact hi hj
      have hfirst : updateAt f (a, r) i = (b.1, Function.update r i b.2) := by rw [hb]; rfl
      have hself : (b.1, Function.update r i b.2).2 i = b.2 := Function.update_self _ _ _
      rw [List.foldl_cons, hfirst, List.map_cons, foldl_update_of_not_mem f hi, hself]
      show _ = ((passOver f r l (f i a (r i)).1).1,
        (f i a (r i)).2 :: (passOver f r l (f i a (r i)).1).2)
      rw [← hb, ← hsame, ← hrest]

end

/-! ## Lists of blocks -/

variable {n : Nat} (P : Perm (Block × Block))

/-- A step on the register and one block. -/
def wrapBlock (num : Fin n → Nat) (i : Fin n) (a w : Block) : Block × Block :=
  (mixLast (num i) (P (a, w)).1, (P (a, w)).2)

def unwrapBlock (num : Fin n → Nat) (i : Fin n) (a w : Block) : Block × Block :=
  P.symm ((mixLast (num i)).symm a, w)

variable {P} {E D : Bytes → Bytes}

theorem wrapPass_eq (hE : ∀ a w : Block, E (a.val ++ w.val) = (P (a, w)).1.val ++ (P (a, w)).2.val)
    (num : Fin n → Nat) (r : Fin n → Block) {l : List (Fin n)} :
    ∀ {t : Nat} (a : Block), (∀ k (h : k < l.length), num (l.get ⟨k, h⟩) = t + k) →
      wrapPass E t a.val (l.map fun i => (r i).val) =
        ((passOver (wrapBlock P num) r l a).1.val,
          (passOver (wrapBlock P num) r l a).2.map Subtype.val) := by
  induction l with
  | nil => exact fun _ _ => rfl
  | cons i l ih =>
      intro t a hnum
      have hi : num i = t := hnum 0 (Nat.succ_pos _)
      have hrest : ∀ k (h : k < l.length), num (l.get ⟨k, h⟩) = t + 1 + k := by
        intro k h
        have hk : num (l.get ⟨k, h⟩) = t + (k + 1) := hnum (k + 1) (Nat.succ_lt_succ h)
        omega
      have htake : ((P (a, r i)).1.val ++ (P (a, r i)).2.val).take 8 = (P (a, r i)).1.val :=
        List.take_left' (P (a, r i)).1.property
      have hdrop : ((P (a, r i)).1.val ++ (P (a, r i)).2.val).drop 8 = (P (a, r i)).2.val :=
        List.drop_left' (P (a, r i)).1.property
      have hmix : xorLast (P (a, r i)).1.val t = (mixLast (num i) (P (a, r i)).1).val := by
        rw [hi]
        rfl
      rw [List.map_cons, wrapPass]
      dsimp only
      rw [hE, htake, hdrop, hmix, ih _ hrest]
      rfl

theorem unwrapPass_eq
    (hD : ∀ a w : Block, D (a.val ++ w.val) = (P.symm (a, w)).1.val ++ (P.symm (a, w)).2.val)
    (num : Fin n → Nat) (r : Fin n → Block) {l : List (Fin n)} : ∀ {t : Nat} (a : Block),
      (∀ k (h : k < l.length), num (l.get ⟨k, h⟩) = t - k) →
      unwrapPass D t a.val (l.map fun i => (r i).val) =
        ((passOver (unwrapBlock P num) r l a).1.val,
          (passOver (unwrapBlock P num) r l a).2.map Subtype.val) := by
  induction l with
  | nil => exact fun _ _ => rfl
  | cons i l ih =>
      intro t a hnum
      have hi : num i = t := hnum 0 (Nat.succ_pos _)
      have hrest : ∀ k (h : k < l.length), num (l.get ⟨k, h⟩) = t - 1 - k := by
        intro k h
        have hk : num (l.get ⟨k, h⟩) = t - (k + 1) := hnum (k + 1) (Nat.succ_lt_succ h)
        omega
      obtain ⟨b, hb⟩ : ∃ b, b = P.symm ((mixLast (num i)).symm a, r i) := ⟨_, rfl⟩
      have hmix : xorLast a.val t = ((mixLast (num i)).symm a).val := by
        rw [hi]
        rfl
      have htake : (b.1.val ++ b.2.val).take 8 = b.1.val := List.take_left' b.1.property
      have hdrop : (b.1.val ++ b.2.val).drop 8 = b.2.val := List.drop_left' b.1.property
      have hblock : unwrapBlock P num i a (r i) = b := hb.symm
      rw [List.map_cons, unwrapPass, passOver]
      dsimp only
      rw [hmix, hD, ← hb, htake, hdrop, ih _ hrest, hblock]
      rfl

/-- The blocks of a state. -/
def blockList (r : Fin n → Block) : List Bytes := (List.finRange n).map fun i => (r i).val

theorem blockList_length (r : Fin n → Block) : (blockList r).length = n := by simp [blockList]

theorem flatten_blockList (r : Fin n → Block) : (blockList r).flatten = flat r := by
  rw [blockList, flat, List.ofFn_eq_map]

theorem blocks8_flat (r : Fin n → Block) : blocks8 n (flat r) = blockList r := by
  rw [blockList, ← List.ofFn_eq_map]
  induction n with
  | zero => rfl
  | succ n ih =>
      have hlen := (r 0).property
      rw [flat_succ, blocks8, List.take_left' hlen, List.drop_left' hlen, ih, List.ofFn_succ]

theorem wrapPass_state
    (hE : ∀ a w : Block, E (a.val ++ w.val) = (P (a, w)).1.val ++ (P (a, w)).2.val) (j : Nat)
    (x : State Block n) :
    let y := (List.finRange n).foldl (fun x (i : Fin n) => step P mixLast (n * j + i + 1, i) x) x
    wrapPass E (n * j + 1) x.1.val (blockList x.2) = (y.1.val, blockList y.2) := by
  intro y
  have hpass :=
    foldl_update (wrapBlock P fun i : Fin n => n * j + i + 1) (List.nodup_finRange n) x.1 x.2
  have hnum : ∀ k (h : k < (List.finRange n).length),
      n * j + ((List.finRange n).get ⟨k, h⟩).val + 1 = n * j + 1 + k := by
    intro k h
    rw [List.get_finRange]
    exact Nat.add_right_comm _ _ _
  rw [blockList, wrapPass_eq hE (fun i : Fin n => n * j + i + 1) x.2 x.1 hnum, ← hpass]
  show _ = (y.1.val, (List.finRange n).map fun i => (y.2 i).val)
  rw [List.map_map]
  rfl

theorem unwrapPass_state
    (hD : ∀ a w : Block, D (a.val ++ w.val) = (P.symm (a, w)).1.val ++ (P.symm (a, w)).2.val)
    (j : Nat) (x : State Block n) :
    let y := (List.finRange n).reverse.foldl
      (fun x (i : Fin n) => (step P mixLast (n * j + i + 1, i)).symm x) x
    unwrapPass D (n * (j + 1)) x.1.val (blockList x.2).reverse =
        (y.1.val, (blockList y.2).reverse) := by
  intro y
  have hpass :=
    foldl_update (unwrapBlock P fun i : Fin n => n * j + i + 1)
      (List.nodup_reverse.mpr (List.nodup_finRange n)) x.1 x.2
  have hnum : ∀ k (h : k < (List.finRange n).reverse.length),
      n * j + ((List.finRange n).reverse.get ⟨k, h⟩).val + 1 = n * (j + 1) - k := by
    intro k h
    have hlen : k < n := by simpa using h
    rw [List.get_eq_getElem, List.getElem_reverse, List.getElem_finRange]
    simp only [List.length_finRange, Fin.val_cast, Nat.mul_succ]
    omega
  rw [blockList, ← List.map_reverse,
    unwrapPass_eq hD (fun i : Fin n => n * j + i + 1) x.2 x.1 hnum, ← hpass]
  show _ = (y.1.val, ((List.finRange n).map fun i => (y.2 i).val).reverse)
  rw [List.map_map, ← List.map_reverse]
  rfl

theorem wrapPasses_state
    (hE : ∀ a w : Block, E (a.val ++ w.val) = (P (a, w)).1.val ++ (P (a, w)).2.val) (m : Nat) :
    ∀ (j : Nat) (x : State Block n),
      let y := (List.range' j m).foldl
        (fun x j =>
          (List.finRange n).foldl (fun x (i : Fin n) => step P mixLast (n * j + i + 1, i) x) x) x
      wrapPasses E m (n * j + 1) x.1.val (blockList x.2) = (y.1.val, blockList y.2) := by
  induction m with
  | zero => exact fun _ _ => rfl
  | succ m ih =>
      intro j x
      have ht : n * j + 1 + n = n * (j + 1) + 1 := by
        rw [Nat.mul_succ]
        omega
      rw [wrapPasses, wrapPass_state hE]
      dsimp only
      rw [blockList_length, ht]
      exact ih (j + 1) _

theorem unwrapPasses_state
    (hD : ∀ a w : Block, D (a.val ++ w.val) = (P.symm (a, w)).1.val ++ (P.symm (a, w)).2.val)
    (m : Nat) :
    ∀ x : State Block n,
      let y := (List.range m).reverse.foldl
        (fun x j =>
          (List.finRange n).reverse.foldl
          (fun x (i : Fin n) => (step P mixLast (n * j + i + 1, i)).symm x) x) x
      unwrapPasses D m (n * m) x.1.val (blockList x.2).reverse =
          (y.1.val, (blockList y.2).reverse) := by
  induction m with
  | zero => exact fun _ => rfl
  | succ m ih =>
      intro x
      have ht : n * (m + 1) - n = n * m := by
        rw [Nat.mul_succ]
        omega
      rw [List.range_succ, List.reverse_append, List.reverse_singleton, List.singleton_append,
        List.foldl_cons, unwrapPasses, unwrapPass_state hD]
      dsimp only
      rw [List.length_reverse, blockList_length, ht]
      exact ih _

/-! ## The functions -/

variable {key : Bytes}

theorem perm_encrypt (hk : ValidKey key) (C : BlockCipher) (a w : Block) :
    C.encrypt key (a.val ++ w.val) = (C.perm key hk (a, w)).1.val ++ (C.perm key hk (a, w)).2.val :=
  (halves_append (C.encrypt_length key _ (append_length (a, w)))).symm

theorem perm_decrypt (hk : ValidKey key) (C : BlockCipher) (a w : Block) :
    C.decrypt key (a.val ++ w.val) =
      ((C.perm key hk).symm (a, w)).1.val ++ ((C.perm key hk).symm (a, w)).2.val :=
  (halves_append (C.decrypt_length key _ (append_length (a, w)))).symm

theorem rijndael_encrypt (hkey : key.length = 16) (a w : Block) :
    aesBlockEncrypt (aesRoundKeys key) (a.val ++ w.val) =
      Rijndael.rijndael.encrypt key (a.val ++ w.val) := by
  have htext := Rijndael.aesEncrypt_textbook (.inl hkey) (append_length (a, w))
  rw [hkey, Rijndael.roundKeys_eq hkey] at htext
  exact htext.symm

theorem rijndael_decrypt (hkey : key.length = 16) (a w : Block) :
    aesBlockDecrypt (aesRoundKeys key) (a.val ++ w.val) =
      Rijndael.rijndael.decrypt key (a.val ++ w.val) := by
  have htext := Rijndael.aesDecrypt_textbook (.inl hkey) (append_length (a, w))
  rw [hkey, Rijndael.roundKeys_eq hkey] at htext
  exact htext.symm

theorem aesWrap_blocks (hk : ValidKey key) (hkey : key.length = 16) (hn : n ≤ 48)
    (r : Fin n → Block) :
    Crypto.aesWrap key (flat r) =
      some (octets (wrap (Rijndael.rijndael.perm key hk) mixLast n (iv, r))) := by
  have hE (a w : Block) := (rijndael_encrypt hkey a w).trans (perm_encrypt hk Rijndael.rijndael a w)
  have hpasses := wrapPasses_state hE 6 0 (iv, r)
  rw [← List.range_eq_range', ← Lib.KeyWrap.wrap_apply, Nat.mul_zero] at hpasses
  have hn' : (flat r).length / 8 = n := by
    rw [flat_length]
    omega
  have hadmitted :
      ¬(key.length ≠ 16 ∨ akwMaxWrapLen < (flat r).length ∨ (flat r).length % 8 ≠ 0) := by
    rw [flat_length, akwMaxWrapLen]
    omega
  have hiv : iv.val = aeskeywrapIV := rfl
  rw [Crypto.aesWrap, if_neg hadmitted, hn']
  dsimp only
  dsimp only at hpasses
  rw [blocks8_flat, ← hiv, hpasses, octets, flatten_blockList]

theorem aesUnwrap_blocks (hk : ValidKey key) (hkey : key.length = 16) (hn : n ≤ 48)
    (x : State Block n) :
    Crypto.aesUnwrap key (octets x) =
      if ((wrap (Rijndael.rijndael.perm key hk) mixLast n).symm x).1 = iv then
        some (flat ((wrap (Rijndael.rijndael.perm key hk) mixLast n).symm x).2)
      else none := by
  have hD (a w : Block) := (rijndael_decrypt hkey a w).trans (perm_decrypt hk Rijndael.rijndael a w)
  have hpasses := unwrapPasses_state hD 6 x
  rw [← Lib.KeyWrap.wrap_symm_apply] at hpasses
  obtain ⟨y, hy⟩ : ∃ y, y = (wrap (Rijndael.rijndael.perm key hk) mixLast n).symm x := ⟨_, rfl⟩
  rw [← hy] at hpasses ⊢
  have hn' : (octets x).length / 8 - 1 = n := by
    rw [octets_length]
    omega
  have hadmitted :
      ¬(key.length ≠ 16 ∨ akwMaxWrapLen + 8 < (octets x).length ∨ (octets x).length % 8 ≠ 0) := by
    rw [octets_length, akwMaxWrapLen]
    omega
  have htake : (octets x).take 8 = x.1.val := List.take_left' x.1.property
  have hdrop : (octets x).drop 8 = flat x.2 := List.drop_left' x.1.property
  have hiv : y.1.val = aeskeywrapIV ↔ y.1 = iv :=
    ⟨fun h => Subtype.ext h, fun h => congrArg Subtype.val h⟩
  dsimp only at hpasses
  rw [Nat.mul_comm] at hpasses
  rw [Crypto.aesUnwrap, if_neg hadmitted, hn', htake, hdrop]
  dsimp only
  rw [blocks8_flat, hpasses]
  dsimp only
  rw [List.reverse_reverse, flatten_blockList]
  by_cases heq : y.1 = iv
  · rw [if_pos heq, if_pos (hiv.mpr heq)]
  · rw [if_neg heq, if_neg fun h => heq (hiv.mp h)]

/-- What a call answers: an error, or octets that are put out. -/
def answer (mem : Mem) (output : Nat) : Option Bytes → Nat × Mem
  | none => (1, mem)
  | some b => (0, Mem.write mem output b)

/-- **The key wrap of `nas` is that of the code**, with the block functions of `rijndael-alg-fst.c`:
for a key of 16 octets, every memory, and wherever input and output are. -/
theorem aes_wrap_nas (hkey : key.length = 16) (il : UInt32) (mem : Mem) (input output : Nat) :
    aesWrap Rijndael.rijndael key il mem input output =
      some (answer mem output (Crypto.aesWrap key (mem.slice input il.toNat))) ∧
      (8 ≤ il.toNat → aesUnwrap Rijndael.rijndael key il mem input output =
        some (answer mem output (Crypto.aesUnwrap key (mem.slice input il.toNat)))) := by
  have hk : ValidKey key := .inl hkey
  have hslice := Nas.Mem.slice_length mem input il.toNat
  constructor
  · by_cases hil : il.toNat % 8 = 0 ∧ il.toNat ≤ akwMaxWrapLen
    · obtain ⟨n, hn⟩ : ∃ n, il.toNat = 8 * n := ⟨il.toNat / 8, by omega⟩
      have hn' : n ≤ 48 := by
        rw [akwMaxWrapLen] at hil
        omega
      obtain ⟨r, hr⟩ := exists_flat (hslice.trans hn)
      rw [aesWrap_eq hk hn hn' (by rw [← hn]; exact hr.symm) output, ← hr,
        aesWrap_blocks hk hkey hn']
      rfl
    · have hbad : ¬ValidKey key ∨ akwMaxWrapLen < il.toNat ∨ il.toNat % 8 ≠ 0 := by omega
      have hbad' : key.length ≠ 16 ∨ akwMaxWrapLen < (mem.slice input il.toNat).length ∨
          (mem.slice input il.toNat).length % 8 ≠ 0 := by
        rw [hslice]
        omega
      rw [aesWrap, Crypto.aesWrap, if_pos hbad', if_pos hbad]
      rfl
  · intro hmin
    by_cases hil : il.toNat % 8 = 0 ∧ il.toNat ≤ akwMaxWrapLen + 8
    · obtain ⟨n, hn⟩ : ∃ n, il.toNat = 8 * n + 8 := ⟨il.toNat / 8 - 1, by omega⟩
      have hn' : n ≤ 48 := by
        rw [akwMaxWrapLen] at hil
        omega
      obtain ⟨x, hx⟩ := exists_octets (hslice.trans hn)
      rw [aesUnwrap_eq hk hn hn' (by rw [← hn]; exact hx.symm) output, ← hx,
        aesUnwrap_blocks hk hkey hn']
      split_ifs <;> rfl
    · have hbad : ¬ValidKey key ∨ akwMaxWrapLen + 8 < il.toNat ∨ il.toNat % 8 ≠ 0 := by omega
      have hbad' : key.length ≠ 16 ∨ akwMaxWrapLen + 8 < (mem.slice input il.toNat).length ∨
          (mem.slice input il.toNat).length % 8 ≠ 0 := by
        rw [hslice]
        omega
      rw [aesUnwrap, Crypto.aesUnwrap, if_pos hbad', if_pos hbad]
      rfl

theorem aes_wrap_nas_zero :
    aesWrap Rijndael.rijndael (List.replicate 16 0) 16 (fun _ => 0) 0 100 =
        some (answer (fun _ => 0) 100
          (Crypto.aesWrap (List.replicate 16 0) (List.replicate 16 0))) ∧
      aesUnwrap Rijndael.rijndael (List.replicate 16 0) 24 (fun _ => 0) 0 100 =
        some (answer (fun _ => 0) 100
          (Crypto.aesUnwrap (List.replicate 16 0) (List.replicate 24 0))) := by
  have hkey : (List.replicate 16 (0 : UInt8)).length = 16 := List.length_replicate
  exact ⟨(aes_wrap_nas hkey 16 (fun _ => 0) 0 100).1,
    (aes_wrap_nas hkey 24 (fun _ => 0) 0 100).2 (by decide)⟩

end BroadcomWl.Crypto.KeyWrap
