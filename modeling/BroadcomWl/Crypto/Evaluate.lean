import BroadcomWl.Crypto.Cipher
import BroadcomWl.Lib.Counter

/-!
# A digest for evaluation

Where a run of `nas` on concrete frames is evaluated, most of the work is SHA-1. `packedSha1` keeps
the sixteen words of the window in one number, so that a round is a few operations on numbers
instead of one on a list.

`sha1_eq_packed` says that it is the same digest, and `bcmcrypto_eq_packed` that a run may be
evaluated with it. -/

namespace BroadcomWl.Crypto

open BroadcomWl.Lib
open BroadcomWl.Nas (Bytes)

/-! ## The window -/

/-- Words in one number, the first one on top. -/
def packWords (ws : List Nat) : Nat := ws.foldl (fun n w => n * 2 ^ 32 + w) 0

/-- Rounds with the function and constant of round `t`, on the packed window. -/
def packedRounds (t : Nat) : Nat → Nat → Sha1State → Nat × Sha1State
  | 0, window, s => (window, s)
  | n + 1, window, ⟨a, b, c, d, e⟩ =>
    let next :=
      rotl 1 ((window >>> 64 ^^^ window >>> 224 ^^^ window >>> 416 ^^^ window >>> 480) % 2 ^ 32)
    packedRounds t n ((window * 2 ^ 32 + next) % 2 ^ (32 * 16))
      ⟨(rotl 5 a + sha1Round t b c d + e + window >>> 480) % 2 ^ 32, a, rotl 30 b, c, d⟩

def packedBlock (h : Sha1State) (block : Bytes) : Sha1State :=
  let r := packedRounds 0 20 (beNat block) h
  let r := packedRounds 20 20 r.1 r.2
  let r := packedRounds 40 20 r.1 r.2
  let r := (packedRounds 60 20 r.1 r.2).2
  ⟨(h.a + r.a) % 2 ^ 32, (h.b + r.b) % 2 ^ 32, (h.c + r.c) % 2 ^ 32, (h.d + r.d) % 2 ^ 32,
    (h.e + r.e) % 2 ^ 32⟩

def packedSha1 (m : Bytes) : Bytes :=
  let p := padMessage (beBytes 8) m
  let h := foldBlocks packedBlock (p.length / 64)
    ⟨0x67452301, 0xefcdab89, 0x98badcfe, 0x10325476, 0xc3d2e1f0⟩ p
  beBytes 4 h.a ++ beBytes 4 h.b ++ beBytes 4 h.c ++ beBytes 4 h.d ++ beBytes 4 h.e

/-- The blocks of `fPRF`. -/
def packedPrfBlocks (key input : Bytes) : Nat → Nat → Bytes
  | 0, _ => []
  | n + 1, i => hmac packedSha1 (input ++ [UInt8.ofNat i]) key ++
      packedPrfBlocks key input n (i + 1)

/-! ## The words of a window -/

section

variable {ws : List Nat}

theorem packWords_concat (ws : List Nat) (w : Nat) :
    packWords (ws ++ [w]) = packWords ws * 2 ^ 32 + w := by
  simp [packWords]

theorem packWords_cons (w : Nat) (ws : List Nat) :
    packWords (w :: ws) = w * 2 ^ (32 * ws.length) + packWords ws := by
  induction ws using List.reverseRecOn with
  | nil => simp [packWords]
  | append_singleton ws x ih =>
      rw [← List.cons_append, packWords_concat, ih, packWords_concat, List.length_append,
        List.length_singleton, Nat.mul_add, Nat.pow_add]
      ring

theorem packWords_lt (h : ∀ w ∈ ws, w < 2 ^ 32) : packWords ws < 2 ^ (32 * ws.length) := by
  induction ws using List.reverseRecOn with
  | nil => simp [packWords]
  | append_singleton ws x ih =>
      have hx : x < 2 ^ 32 := h x (by simp)
      have hws := ih fun w hw => h w (by simp [hw])
      rw [packWords_concat, List.length_append, List.length_singleton, Nat.mul_add, Nat.pow_add]
      omega

theorem packWords_head (w : Nat) (h : ∀ w ∈ ws, w < 2 ^ 32) :
    packWords (w :: ws) >>> (32 * ws.length) = w := by
  rw [packWords_cons, Nat.shiftRight_eq_div_pow, Nat.mul_comm w,
    Nat.mul_add_div (Nat.two_pow_pos _), Nat.div_eq_of_lt (packWords_lt h), Nat.add_zero]

theorem packWords_getD (h : ∀ w ∈ ws, w < 2 ^ 32) {i k : Nat} (hk : i + k + 1 = ws.length) :
    packWords ws >>> (32 * k) % 2 ^ 32 = ws.getD i 0 := by
  induction ws using List.reverseRecOn generalizing k with
  | nil => simp at hk
  | append_singleton ws x ih =>
      have hx : x < 2 ^ 32 := h x (by simp)
      have hws : ∀ w ∈ ws, w < 2 ^ 32 := fun w hw => h w (by simp [hw])
      rw [List.length_append, List.length_singleton] at hk
      rw [packWords_concat]
      cases k with
      | zero =>
          have hi : i = ws.length := by omega
          rw [hi, List.getD_append_right _ _ _ _ le_rfl, Nat.sub_self, Nat.mul_zero,
            Nat.shiftRight_zero, Nat.mul_add_mod', Nat.mod_eq_of_lt hx]
          rfl
      | succ k =>
          have hshift : (packWords ws * 2 ^ 32 + x) >>> (32 * (k + 1)) =
              packWords ws >>> (32 * k) := by
            rw [Nat.mul_add, Nat.mul_one, Nat.add_comm (32 * k), Nat.shiftRight_add,
              Nat.shiftRight_eq_div_pow _ 32]
            congr 1
            omega
          rw [hshift, ih hws (by omega), List.getD_append _ _ _ _ (by omega)]

end

/-! ## The rounds -/

theorem rotl_lt {word : Nat} (h : word < 2 ^ 32) : rotl 1 word < 2 ^ 32 := by
  refine Nat.or_lt_two_pow (Nat.mod_lt _ (by decide)) ?_
  rw [Nat.shiftRight_eq_div_pow]
  omega

/-- A window of sixteen words. -/
structure Window (ws : List Nat) : Prop where
  length : ws.length = 16
  lt : ∀ w ∈ ws, w < 2 ^ 32

/-- **A round** moves the window on by a word. -/
theorem Window.next {w : Nat} {ws : List Nat} (h : Window (w :: ws)) :
    ∃ next, next = rotl 1 (ws.getD 12 0 ^^^ ws.getD 7 0 ^^^ ws.getD 1 0 ^^^ w) ∧
    Window (ws ++ [next]) ∧
      (packWords (w :: ws) >>> 64 ^^^ packWords (w :: ws) >>> 224 ^^^
        packWords (w :: ws) >>> 416 ^^^
          packWords (w :: ws) >>> 480) % 2 ^ 32 = ws.getD 12 0 ^^^ ws.getD 7 0 ^^^
            ws.getD 1 0 ^^^ w ∧
      (packWords (w :: ws) * 2 ^ 32 + next) % 2 ^ (32 * 16) = packWords (ws ++ [next]) ∧
      packWords (w :: ws) >>> 480 = w := by
  have hword {i k : Nat} (hk : i + k + 1 = 16) :
      packWords (w :: ws) >>> (32 * k) % 2 ^ 32 = (w :: ws).getD i 0 :=
    packWords_getD h.lt (by rw [h.length, hk])
  have hmix :
      (packWords (w :: ws) >>> 64 ^^^ packWords (w :: ws) >>> 224 ^^^
      packWords (w :: ws) >>> 416 ^^^
      packWords (w :: ws) >>> 480) % 2 ^ 32 =
          ws.getD 12 0 ^^^ ws.getD 7 0 ^^^ ws.getD 1 0 ^^^ w := by
    rw [Nat.xor_mod_two_pow, Nat.xor_mod_two_pow, Nat.xor_mod_two_pow, hword (i := 13) (k := 2) rfl,
      hword (i := 8) (k := 7) rfl, hword (i := 2) (k := 13) rfl, hword (i := 0) (k := 15) rfl]
    rfl
  have hlength : ws.length = 15 := by
    have hall := h.length
    rw [List.length_cons] at hall
    omega
  have hws : ∀ w ∈ ws, w < 2 ^ 32 := fun x hx => h.lt x (List.mem_cons_of_mem _ hx)
  have hnext : rotl 1 (ws.getD 12 0 ^^^ ws.getD 7 0 ^^^ ws.getD 1 0 ^^^ w) < 2 ^ 32 := by
    refine rotl_lt ?_
    rw [← hmix]
    exact Nat.mod_lt _ (by decide)
  obtain ⟨next, heq⟩ : ∃ next, next = rotl 1 (ws.getD 12 0 ^^^ ws.getD 7 0 ^^^ ws.getD 1 0 ^^^ w) :=
    ⟨_, rfl⟩
  rw [← heq] at hnext
  have hwindow : Window (ws ++ [next]) := by
    refine ⟨by rw [List.length_append, List.length_singleton, hlength], fun x hx => ?_⟩
    rcases List.mem_append.mp hx with hx | hx
    · exact hws x hx
    · rwa [List.mem_singleton.mp hx]
  refine ⟨next, heq, hwindow, hmix, ?_, ?_⟩
  · have hlt := packWords_lt hwindow.lt
    rw [hwindow.length] at hlt
    have hsum : packWords (w :: ws) * 2 ^ 32 + next =
        w * 2 ^ (32 * (ws.length + 1)) + packWords (ws ++ [next]) := by
      rw [packWords_cons, packWords_concat, Nat.mul_add_one, Nat.pow_add, Nat.add_mul,
        Nat.mul_assoc, Nat.add_assoc]
    rw [← List.length_cons (a := w), h.length] at hsum
    rw [hsum, Nat.mul_add_mod', Nat.mod_eq_of_lt hlt]
  · have htop := packWords_head w hws
    rwa [hlength] at htop

/-- **The rounds of a phase**, in which the round function does not change. -/
theorem sha1Rounds_eq (t : Nat) {n t₀ : Nat} (hphase : ∀ i < n, sha1Round (t₀ + i) = sha1Round t)
    {ws : List Nat} (h : Window ws) (m : Nat) (s : Sha1State) :
    ∃ ws', Window ws' ∧ (packedRounds t n (packWords ws) s).1 = packWords ws' ∧
      sha1Rounds (n + m) t₀ ws s =
        sha1Rounds m (t₀ + n) ws' (packedRounds t n (packWords ws) s).2 := by
  induction n generalizing t₀ ws s with
  | zero => exact ⟨ws, h, rfl, by rw [Nat.zero_add]; rfl⟩
  | succ n ih =>
      obtain ⟨a, b, c, d, e⟩ := s
      cases ws with
      | nil => exact absurd h.length (by decide)
      | cons w ws =>
          obtain ⟨next, hnext, hwindow, hmix, hpack, htop⟩ := h.next
          have hfirst : sha1Round t₀ = sha1Round t := hphase 0 (Nat.succ_pos n)
          have hrest : ∀ i < n, sha1Round (t₀ + 1 + i) = sha1Round t := by
            intro i hi
            rw [Nat.add_assoc, Nat.add_comm 1 i]
            exact hphase (i + 1) (Nat.succ_lt_succ hi)
          obtain ⟨ws', hws', hpacked, hrounds⟩ := ih hrest hwindow
            ⟨(rotl 5 a + sha1Round t b c d + e + w) % 2 ^ 32, a, rotl 30 b, c, d⟩
          have hstep : packedRounds t (n + 1) (packWords (w :: ws)) ⟨a, b, c, d, e⟩ =
              packedRounds t n (packWords (ws ++ [next]))
                ⟨(rotl 5 a + sha1Round t b c d + e + w) % 2 ^ 32, a, rotl 30 b, c, d⟩ := by
            rw [packedRounds, hmix, ← hnext, hpack, htop]
          refine ⟨ws', hws', by rw [hstep, hpacked], ?_⟩
          have hcount : n + 1 + m = n + m + 1 := Nat.add_right_comm n 1 m
          rw [hstep, hcount, sha1Rounds, ← hnext, hfirst, hrounds, Nat.add_assoc, Nat.add_comm 1 n]

/-! ## Blocks -/

theorem beWord_eq (b : Bytes) : beWord b = beNat b := by
  unfold beWord beNat
  simp only [Nat.mul_comm 256]

theorem window_wordsOf (n : Nat) {b : Bytes} (hb : b.length = 4 * n) :
    packWords (wordsOf beWord n b) = beNat b ∧ (wordsOf beWord n b).length = n ∧
      ∀ w ∈ wordsOf beWord n b, w < 2 ^ 32 := by
  induction n generalizing b with
  | zero =>
      obtain rfl : b = [] := List.length_eq_zero_iff.mp hb
      exact ⟨rfl, rfl, fun _ hw => absurd hw List.not_mem_nil⟩
  | succ n ih =>
      have htake : (b.take 4).length = 4 := by
        rw [List.length_take]
        omega
      have hdrop : (b.drop 4).length = 4 * n := by
        rw [List.length_drop]
        omega
      obtain ⟨hpack, hlength, hlt⟩ := ih hdrop
      have hword : beWord (b.take 4) < 2 ^ 32 := by
        have hbound := beNat_lt (b.take 4)
        rw [htake] at hbound
        rw [beWord_eq]
        exact hbound
      refine ⟨?_, by rw [wordsOf, List.length_cons, hlength], ?_⟩
      · have hpow : 256 ^ (4 * n) = 2 ^ (32 * n) := by
          rw [show 256 = 2 ^ 8 from rfl, ← Nat.pow_mul, ← Nat.mul_assoc]
        rw [wordsOf, packWords_cons, hlength, hpack, beWord_eq, ← hpow, ← hdrop, ← beNat_append,
          List.take_append_drop]
      · rw [wordsOf, List.forall_mem_cons]
        exact ⟨hword, hlt⟩

/-- **A block.** -/
theorem sha1Block_eq (h : Sha1State) {block : Bytes} (hblock : block.length = 64) :
    sha1Block h block = packedBlock h block := by
  obtain ⟨hpack, hlength, hlt⟩ := window_wordsOf 16 hblock
  have hphase (t : Nat) (ht : t ∈ [0, 20, 40, 60]) : ∀ i < 20, sha1Round (t + i) = sha1Round t := by
    intro i hi
    funext b c d
    simp only [List.mem_cons, List.not_mem_nil, or_false] at ht
    unfold sha1Round
    rcases ht with rfl | rfl | rfl | rfl <;> split_ifs <;> first | rfl | omega
  obtain ⟨ws₁, hws₁, hpack₁, hrounds₁⟩ := sha1Rounds_eq 0 (hphase 0 (by decide)) ⟨hlength, hlt⟩ 60 h
  obtain ⟨ws₂, hws₂, hpack₂, hrounds₂⟩ := sha1Rounds_eq 20 (hphase 20 (by decide)) hws₁ 40
    (packedRounds 0 20 (packWords (wordsOf beWord 16 block)) h).2
  obtain ⟨ws₃, hws₃, hpack₃, hrounds₃⟩ := sha1Rounds_eq 40 (hphase 40 (by decide)) hws₂ 20
    (packedRounds 20 20 (packWords ws₁)
      (packedRounds 0 20 (packWords (wordsOf beWord 16 block)) h).2).2
  obtain ⟨ws₄, -, -, hrounds₄⟩ := sha1Rounds_eq 60 (hphase 60 (by decide)) hws₃ 0
    (packedRounds 40 20 (packWords ws₂) (packedRounds 20 20 (packWords ws₁)
      (packedRounds 0 20 (packWords (wordsOf beWord 16 block)) h).2).2).2
  have hall : sha1Rounds 80 0 (wordsOf beWord 16 block) h =
      (packedRounds 60 20 (packWords ws₃)
        (packedRounds 40 20 (packWords ws₂) (packedRounds 20 20 (packWords ws₁)
        (packedRounds 0 20 (packWords (wordsOf beWord 16 block)) h).2).2).2).2 := by
    exact hrounds₁.trans (hrounds₂.trans (hrounds₃.trans hrounds₄))
  unfold sha1Block packedBlock
  dsimp only
  rw [hall, ← hpack₃, ← hpack₂, ← hpack₁, hpack]

theorem foldBlocks_congr {H : Type} {f g : H → Bytes → H}
    (hfg : ∀ h b, b.length = 64 → f h b = g h b) {n : Nat} {b : Bytes} (hb : 64 * n ≤ b.length)
    (h : H) : foldBlocks f n h b = foldBlocks g n h b := by
  induction n generalizing h b with
  | zero => rfl
  | succ n ih =>
      have htake : (b.take 64).length = 64 := by
        rw [List.length_take]
        omega
      rw [foldBlocks, foldBlocks, hfg h _ htake, ih (by rw [List.length_drop]; omega)]

/-- **The digest.** -/
theorem sha1_eq_packed : sha1 = packedSha1 := by
  funext m
  unfold sha1 packedSha1
  dsimp only
  rw [foldBlocks_congr (fun h b => sha1Block_eq h) (Nat.mul_div_le _ 64)]

/-! ## The primitives -/

theorem prfBlocks_eq (key input : Bytes) (n i : Nat) :
    prfBlocks key input n i = packedPrfBlocks key input n i := by
  induction n generalizing i with
  | zero => rfl
  | succ n ih => rw [prfBlocks, packedPrfBlocks, ih, hmacSha1, sha1_eq_packed]

/-- The primitives, with the packed digest. -/
def packedCrypto : Nas.Crypto where
  hmacMd5 := hmacMd5
  hmacSha1 text key := hmac packedSha1 text key
  fPRF key label data len :=
    packedPrfBlocks key ((if label = [] then [] else label ++ [0]) ++ data) ((len + 19) / 20) 0
  rc4 := rc4Drop256
  aesWrap := aesWrap
  aesUnwrap := aesUnwrap
  le_fPRF_length key label data len := by
    rw [← prfBlocks_eq]
    exact le_fPRF_length key label data len

theorem bcmcrypto_eq_packed : bcmcrypto = packedCrypto := by
  have hprf : fPRF = packedCrypto.fPRF := by
    funext key label data len
    exact prfBlocks_eq key _ _ 0
  have hsha : hmacSha1 = packedCrypto.hmacSha1 := by
    funext text key
    rw [hmacSha1, sha1_eq_packed]
    rfl
  unfold bcmcrypto
  simp only [hprf, hsha]
  rfl

end BroadcomWl.Crypto
