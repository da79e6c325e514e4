import BroadcomWl.Crypto.Prf
import BroadcomWl.Lib.CString

/-!
# From a passphrase to a key

`passhash.c`: the key of a network as two sums of 4096 digests each. `passhash` makes it at once;
`init_passhash`, `do_passhash` and `get_passhash` make it in pieces of any size, with the last
digest, the sum so far and the number of the digest in between.

**Pieces.** `Inv` says where a computation in pieces is: in which of the two sums, and after how
many of its digests. A piece of any size goes on from there (`doPasshash_inv`), so that the pieces
end, and with the key of `passhash` (`pieces_of_passhash`). -/

namespace BroadcomWl.Crypto.Passhash

open BroadcomWl.Nas (Bytes)
open BroadcomWl.Lib (strlen)
open BroadcomWl.Crypto.KeyWrap
open BroadcomWl.Crypto.Prf (Hash)

/-! ## The code -/

/-- `hmac_sha1` with the password as the key, which is memory of the caller. -/
def hmacPassword (H : Hash) (text password : Bytes) (passlen : Nat) : Bytes × Bytes :=
  let (digest, key) := Prf.hmacSha1 H text (password.take passlen)
  (digest, splice password 0 key)

/-- What the loops work on: the password, the last digest and the sum. -/
structure Turns where
  password : Bytes
  last : Bytes
  output : Bytes

/-- `F`, with the last digest in `digest1`. -/
def F (H : Hash) (password : Bytes) (passlen : Nat) (ssid : Bytes)
    (ssidlength iterations count : Nat) : Turns :=
  let ssidlength := if 32 < ssidlength then 32 else ssidlength
  let digest := ssid.take ssidlength ++ beBytes 4 count
  let (digest1, password) := hmacPassword H digest password passlen
  let body (s : Turns) : Turns :=
    let (digest, password) := hmacPassword H s.last s.password passlen
    { password := password, last := digest, output := List.zipWith (· ^^^ ·) s.output digest }
  body^[iterations - 1] { password := password, last := digest1, output := digest1 }

/-- The body of the loop in `do_F`. -/
def turn (H : Hash) (passlen : Nat) (s : Turns) : Turns :=
  let (digest, password) := hmacPassword H s.last s.password passlen
  ⟨password, digest, List.zipWith (· ^^^ ·) s.output digest⟩

/-- `init_F`: the first digest. -/
def initF (H : Hash) (password : Bytes) (passlen : Nat) (ssid : Bytes) (ssidlength count : Nat) :
    Turns :=
  let ssidlength := if 32 < ssidlength then 32 else ssidlength
  let (digest, password) :=
    hmacPassword H (ssid.take ssidlength ++ beBytes 4 count) password passlen
  ⟨password, digest, digest⟩

/-- `do_F` -/
def doF (H : Hash) (passlen : Nat) (iterations : Int) (s : Turns) : Turns :=
  (turn H passlen)^[iterations.toNat] s

/-- `passhash`: the status, the output and the password. -/
def passhash (H : Hash) (password : Bytes) (passlen : Nat) (ssid : Bytes) (ssidlen : Nat)
    (output : Bytes) : Option (Int × Bytes × Bytes) := do
  let n ← strlen password
  if n < 8 ∨ 63 < n ∨ 32 < ssidlen then some (1, output, password)
  else
    let s := F H password passlen ssid ssidlen 4096 1
    let output := splice output 0 s.output
    let s := F H s.password passlen ssid ssidlen 4096 2
    some (0, splice output 20 s.output, s.password)

/-- `passhash_t`; the password is where it points to. -/
structure PasshashT where
  digest : Bytes
  count : Nat
  output : Bytes
  password : Bytes
  passlen : Nat
  ssid : Bytes
  ssidlen : Nat
  iters : Int

/-- `init_passhash` -/
def initPasshash (ph : PasshashT) (password : Bytes) (passlen : Nat) (ssid : Bytes)
    (ssidlen : Nat) : Option (Int × PasshashT) := do
  let n ← strlen password
  if n < 8 ∨ 63 < n then some (-1, ph)
  else some (0, ⟨List.replicate 20 0, 1, List.replicate 40 0, password, passlen, ssid, ssidlen, 0⟩)

/-- A value of type `int`. -/
def int (x : Int) : Option Int := if -2 ^ 31 ≤ x ∧ x < 2 ^ 31 then some x else none

/-- `do_passhash` from the call of `do_F` on. -/
def goOn (H : Hash) (ph : PasshashT) (iterations : Int) : Option (Int × PasshashT) := do
  let off := 20 * (ph.count - 1)
  let sum ← int (ph.iters + iterations)
  let iterations := if 4096 < sum then 4096 - ph.iters else iterations
  let s := doF H ph.passlen iterations ⟨ph.password, ph.digest, (ph.output.drop off).take 20⟩
  let ph :=
    { ph with password := s.password, digest := s.last, output := splice ph.output off s.output,
                      iters := ph.iters + iterations }
  if ph.iters = 4096 then
    let ph := { ph with count := ph.count + 1, iters := 0 }
    if 2 < ph.count then some (0, ph) else some (1, ph)
  else some (1, ph)

/-- The call of `init_F` in `do_passhash`. -/
def startSum (H : Hash) (ph : PasshashT) : PasshashT :=
  let s := initF H ph.password ph.passlen ph.ssid ph.ssidlen ph.count
  { ph with
    password := s.password, digest := s.last
    output := splice ph.output (20 * (ph.count - 1)) s.output, iters := 1 }

/-- `do_passhash` -/
def doPasshash (H : Hash) (ph : PasshashT) (iterations : Int) : Option (Int × PasshashT) :=
  if 2 < ph.count then some (-1, ph)
  else if ph.iters = 0 then (int (iterations - 1)).bind (goOn H (startSum H ph))
  else goOn H ph iterations

/-- `get_passhash`: the status, and what is put into the output. -/
def getPasshash (ph : PasshashT) (outlen : Int) : Option (Int × Bytes) :=
  if 2 < ph.count ∧ outlen ≤ 40 then
    if outlen < 0 then none else some (0, ph.output.take outlen.toNat)
  else some (-1, [])

/-! ## The digests of a sum -/

/-- What the key is made of. -/
structure Credentials where
  password : Bytes
  passlen : Nat
  ssid : Bytes
  ssidlen : Nat
  short : passlen ≤ 64

section

variable (H : Hash) (p : Credentials)

theorem hmacPassword_eq (text : Bytes) :
    hmacPassword H text p.password p.passlen =
      (hmac H.hash text (p.password.take p.passlen), p.password) := by
  have hshort : (p.password.take p.passlen).length ≤ Prf.prfMaxKeyLen := by
    rw [List.length_take]
    exact (Nat.min_le_left _ _).trans p.short
  have hkey : (Prf.hmacSha1 H text (p.password.take p.passlen)).2 = p.password.take p.passlen :=
    (Prf.reduceKey_key_iff H _).mpr (.inl hshort)
  simp only [hmacPassword, hkey, Prf.hmacSha1_digest, Prf.splice_zero, List.length_take]
  rw [List.take_eq_take_min, List.take_append_drop]

/-- The digests of sum `c`, as far as the first `n` of them. -/
def sumOf (c n : Nat) : Turns :=
  (turn H p.passlen)^[n - 1] (initF H p.password p.passlen p.ssid p.ssidlen c)

/-- **`F` at once** is `init_F` and the turns of `do_F`. -/
theorem F_eq_sumOf (c n : Nat) :
    F H p.password p.passlen p.ssid p.ssidlen n c = sumOf H p c n := rfl

/-- The password is the one given, and the sum is a digest. -/
structure Turns.Sound (s : Turns) : Prop where
  password : s.password = p.password
  output : s.output.length = 20

variable {p}

theorem Turns.Sound.eta {s : Turns} (h : s.Sound p) :
    (⟨p.password, s.last, s.output⟩ : Turns) = s := by
  cases s
  cases h.password
  rfl

theorem turn_sound {s : Turns} (h : s.Sound p) : (turn H p.passlen s).Sound p := by
  rw [turn, h.password, hmacPassword_eq H p]
  refine ⟨rfl, ?_⟩
  rw [List.length_zipWith, h.output, Prf.hmac_length, Nat.min_self]

variable (p)

theorem initF_sound (count : Nat) :
    (initF H p.password p.passlen p.ssid p.ssidlen count).Sound p := by
  rw [initF, hmacPassword_eq H p]
  exact ⟨rfl, Prf.hmac_length H _ _⟩

theorem sumOf_sound (c n : Nat) : (sumOf H p c n).Sound p := by
  rw [sumOf]
  induction n - 1 with
  | zero => exact initF_sound H p c
  | succ k ih =>
      rw [Function.iterate_succ_apply']
      exact turn_sound H ih

/-- **Digests go on** where they have stopped. -/
theorem doF_sumOf (c k : Nat) {n : Nat} (hn : 1 ≤ n) :
    doF H p.passlen k ⟨p.password, (sumOf H p c n).last, (sumOf H p c n).output⟩ =
      sumOf H p c (n + k) := by
  rw [(sumOf_sound H p c n).eta, doF, Int.toNat_natCast, sumOf, sumOf, ← Function.iterate_add_apply]
  congr 2
  omega

/-! ## The pieces -/

/-- Twenty octets of the output. -/
def part (output : Bytes) (c : Nat) : Bytes := (output.drop (20 * c)).take 20

/-- The computation is at digest `n` of the sum with the number `c`, counted from zero, and has made
those before. -/
structure Inv (c n : Nat) (ph : PasshashT) : Prop where
  password : ph.password = p.password
  passlen : ph.passlen = p.passlen
  ssid : ph.ssid = p.ssid
  ssidlen : ph.ssidlen = p.ssidlen
  count : ph.count = c + 1
  iters : ph.iters = n
  length : ph.output.length = 40
  done : ∀ k < c, part ph.output k = (sumOf H p (k + 1) 4096).output
  digest : n ≠ 0 → ph.digest = (sumOf H p (c + 1) n).last
  output : n ≠ 0 → part ph.output c = (sumOf H p (c + 1) n).output

end

section

variable {output d : Bytes} {c k : Nat} (hout : output.length = 40) (hd : d.length = 20)
  (hc : c < 2)
include hout hd hc

theorem part_splice (hk : k < 2) :
    part (splice output (20 * c) d) k = if k = c then d else part output k := by
  have hfront : (output.take (20 * c)).length = 20 * c := by
    rw [List.length_take]
    omega
  rw [part, splice]
  by_cases hkc : k = c
  · rw [if_pos hkc, hkc, List.append_assoc, List.drop_left' hfront]
    exact List.take_left' hd
  · rw [if_neg hkc, part]
    cases Nat.lt_or_gt_of_ne hkc with
    | inl hlt =>
        rw [List.append_assoc, List.drop_append_of_le_length (by omega),
            List.take_append_of_le_length (by
          rw [List.length_drop]
          omega), List.drop_take, List.take_take]
        congr 1
        omega
    | inr hgt =>
        obtain ⟨rfl, rfl⟩ : c = 0 ∧ k = 1 := by omega
        rw [Nat.mul_zero, List.take_zero, List.nil_append, Nat.zero_add, List.drop_left' hd, hd]

theorem splice_length : (splice output (20 * c) d).length = 40 := by
  simp only [splice, List.length_append, List.length_take, List.length_drop]
  omega

end

section

variable {H : Hash} {p : Credentials} {c n : Nat} {ph : PasshashT}

/-- The sum and what belongs to it put into `passhash_t`. -/
def PasshashT.enter (ph : PasshashT) (c : Nat) (s : Turns) (n : Nat) : PasshashT :=
  { ph with
    password := s.password, digest := s.last
    output := splice ph.output (20 * c) s.output, iters := n }

theorem Inv.enter (h : Inv H p c n ph) (hc : c < 2) (m : Nat) :
    Inv H p c m (ph.enter c (sumOf H p (c + 1) m) m) := by
  have hsound := sumOf_sound H p (c + 1) m
  have hparts := fun k hk => part_splice h.length hsound.output hc (k := k) hk
  refine ⟨hsound.password, h.passlen, h.ssid, h.ssidlen, h.count, rfl,
    splice_length h.length hsound.output hc,
    fun k hk => ?_, fun _ => rfl, fun _ => ?_⟩
  · exact (hparts k (by omega)).trans ((if_neg hk.ne).trans (h.done k hk))
  · exact (hparts c hc).trans (if_pos rfl)

theorem Inv.complete (h : Inv H p c 4096 ph) :
    Inv H p (c + 1) 0 { ph with count := ph.count + 1, iters := 0 } := by
  refine ⟨h.password, h.passlen, h.ssid, h.ssidlen, congrArg (· + 1) h.count, rfl, h.length,
    fun k hk => ?_,
    fun hzero => absurd rfl hzero, fun hzero => absurd rfl hzero⟩
  cases Nat.lt_or_eq_of_le (Nat.le_of_lt_succ hk) with
  | inl hlt => exact h.done k hlt
  | inr heq =>
      subst heq
      exact h.output (by decide)

theorem int_ok {x : Int} (hlow : 0 ≤ x) (hhigh : x < 2 ^ 31) : int x = some x :=
  if_pos ⟨by omega, hhigh⟩

/-- **The rest of a piece**: it makes as many digests as are asked for and are left in the sum. -/
theorem goOn_inv (h : Inv H p c n ph) (hc : c < 2) (hn : 1 ≤ n) (hn' : n < 4096) {k : Nat}
    (hk : k < 2 ^ 31 - 4096) :
    ∃ c' n' ph', goOn H ph k = some (if c' = 2 then 0 else 1, ph') ∧ Inv H p c' n' ph' ∧ n' < 4096 ∧
      4096 * c' + n' = 4096 * c + n + min k (4096 - n) := by
  have hiters := h.iters
  have hsum : int (ph.iters + k) = some (ph.iters + k) := int_ok (by omega) (by omega)
  obtain ⟨m, hm⟩ : ∃ m, m = min k (4096 - n) := ⟨_, rfl⟩
  have hmade : (if 4096 < ph.iters + (k : Int) then 4096 - ph.iters else (k : Int)) =
      (m : Int) := by
    split <;> omega
  have hdoF : doF H ph.passlen m ⟨ph.password, ph.digest, part ph.output c⟩ =
      sumOf H p (c + 1) (n + m) := by
    rw [h.passlen, h.password, h.digest (by omega), h.output (by omega), doF_sumOf H p (c + 1) m hn]
  have hentered := h.enter hc (n + m)
  have hgoOn : goOn H ph k =
      let ph' := ph.enter c (sumOf H p (c + 1) (n + m)) (n + m : Nat)
      if n + m = 4096 then
        some (if c + 1 = 2 then 0 else 1, { ph' with count := ph'.count + 1, iters := 0 })
      else some (1, ph') := by
    have hoff : ph.count - 1 = c := by rw [h.count, Nat.add_sub_cancel]
    have hend : (ph.iters + (m : Int) = 4096) = (n + m = 4096) := by
      rw [hiters]
      exact propext (by omega)
    have hlast : (2 < ph.count + 1) = (c + 1 = 2) := by
      rw [h.count]
      exact propext (by omega)
    have hsame : ((n + m : Nat) : Int) = ph.iters + m := by rw [hiters, Nat.cast_add]
    rw [part] at hdoF
    simp only [goOn, hsum, hmade, hoff, hdoF, hend, hlast, PasshashT.enter, hsame,
      Option.bind_eq_bind, Option.bind_some]
    congr 1
    split <;> rfl
  rw [hgoOn, ← hm]
  by_cases hfull : n + m = 4096
  · rw [hfull] at hentered
    refine ⟨c + 1, 0, _, ?_, hentered.complete, by decide, by omega⟩
    simp only [hfull, if_true]
  · refine ⟨c, n + m, _, ?_, hentered, by omega, by omega⟩
    simp only [if_neg hfull, if_neg hc.ne]

/-- **One piece.** -/
theorem doPasshash_inv (h : Inv H p c n ph) (hc : c < 2) (hn : n < 4096) {iterations : Int}
    (hone : 1 ≤ iterations) (hmax : iterations ≤ 2 ^ 31 - 4097) :
    ∃ c' n' ph', doPasshash H ph iterations = some (if c' = 2 then 0 else 1, ph') ∧
    Inv H p c' n' ph' ∧ n' < 4096 ∧
      4096 * c' + n' = 4096 * c + n + min iterations.toNat (4096 - n) := by
  have hcount : ¬2 < ph.count := by
    rw [h.count]
    omega
  obtain ⟨k, rfl⟩ := Int.eq_ofNat_of_zero_le (show 0 ≤ iterations by omega)
  rw [Int.toNat_natCast]
  by_cases hzero : n = 0
  · subst hzero
    have hiters : ph.iters = 0 := h.iters.trans Nat.cast_zero
    have hfewer : int ((k : Int) - 1) = some ((k - 1 : Nat) : Int) := by
      rw [int_ok (by omega) (by omega)]
      congr 1
      omega
    have hstart : startSum H ph = ph.enter c (sumOf H p (c + 1) 1) (1 : Nat) := by
      have hfirst : initF H ph.password ph.passlen ph.ssid ph.ssidlen ph.count =
          sumOf H p (c + 1) 1 := by
        rw [h.password, h.passlen, h.ssid, h.ssidlen, h.count]
        rfl
      rw [startSum, hfirst, PasshashT.enter, h.count, Nat.add_sub_cancel, Nat.cast_one]
    obtain ⟨c', n', ph', hgo, hinv, hn', hsum⟩ :=
      goOn_inv (h.enter hc 1) hc le_rfl (by decide) (k := k - 1) (by omega)
    refine ⟨c', n', ph', ?_, hinv, hn', by omega⟩
    rw [doPasshash, if_neg hcount, if_pos hiters, hfewer, Option.bind_some, hstart, hgo]
  · have hiters : ¬ph.iters = 0 := by
      rw [h.iters]
      omega
    rw [doPasshash, if_neg hcount, if_neg hiters]
    exact goOn_inv h hc (by omega) hn (by omega)

/-! ## All pieces -/

/-- The pieces of a computation up to its end, where every one but the last says that there is more
to do. -/
structure Pieces (H : Hash) (its : Nat → Int) (N : Nat) (ph : Nat → PasshashT) : Prop where
  pos : 0 < N
  step : ∀ k < N, doPasshash H (ph k) (its k) = some (if k + 1 = N then 0 else 1, ph (k + 1))
  refuses : ∀ k < N, ∀ outlen, getPasshash (ph k) outlen = some (-1, [])

theorem refuses_of_inv (h : Inv H p c n ph) (hc : c < 2) (outlen : Int) :
    getPasshash ph outlen = some (-1, []) := by
  have hcount : ¬2 < ph.count := by
    rw [h.count]
    omega
  rw [getPasshash, if_neg fun hcond => hcount hcond.1]

/-- **The pieces end**, when both sums are complete. -/
theorem pieces_end (its : Nat → Int) (hits : ∀ k, 1 ≤ its k ∧ its k ≤ 2 ^ 31 - 4097)
    (h : Inv H p c n ph) (hc : c < 2) (hn : n < 4096) :
    ∃ N phs, phs 0 = ph ∧ Pieces H its N phs ∧ Inv H p 2 0 (phs N) := by
  obtain ⟨left, hleft⟩ : ∃ left, left = 8192 - (4096 * c + n) := ⟨_, rfl⟩
  induction left using Nat.strong_induction_on generalizing c n ph its with
  | _ left ih =>
      obtain ⟨c', n', ph', hstep, hinv, hn', hsum⟩ := doPasshash_inv h hc hn (hits 0).1 (hits 0).2
      have hmore : 1 ≤ (its 0).toNat := by
        have hone := (hits 0).1
        omega
      by_cases hlast : c' = 2
      · subst hlast
        obtain rfl : n' = 0 := by omega
        refine ⟨1, fun k => if k = 0 then ph else ph', rfl,
          ⟨Nat.one_pos, fun k hk => ?_, fun k hk => ?_⟩, hinv⟩
        · obtain rfl : k = 0 := by omega
          exact hstep
        · obtain rfl : k = 0 := by omega
          exact refuses_of_inv h hc
      · obtain ⟨N, phs, hfirst, hpieces, hend⟩ :=
          ih (8192 - (4096 * c' + n')) (by omega) (fun k => its (k + 1))
          (fun k => hits (k + 1)) hinv (by omega) hn' rfl
        refine ⟨N + 1, fun k => if k = 0 then ph else phs (k - 1), rfl,
          ⟨Nat.succ_pos N, fun k hk => ?_, fun k hk => ?_⟩,
          hend⟩
        · cases k with
          | zero =>
              have hpos := hpieces.pos
              rw [if_neg hlast, ← hfirst] at hstep
              simpa [hpos.ne'] using hstep
          | succ k => simpa using hpieces.step k (by omega)
        · cases k with
          | zero => exact refuses_of_inv h hc
          | succ k => exact hpieces.refuses k (by omega)

/-- **The output of both sums** is what `passhash` puts out. -/
theorem output_of_inv (h : Inv H p 2 0 ph) :
    ph.output = (sumOf H p 1 4096).output ++ (sumOf H p 2 4096).output := by
  have hfirst := h.done 0 (by decide)
  have hsecond := h.done 1 (by decide)
  rw [part, List.drop_zero] at hfirst
  rw [part, List.take_of_length_le (by rw [List.length_drop, h.length])] at hsecond
  rw [← hfirst, ← hsecond, List.take_append_drop]

theorem passhash_eq (H : Hash) (p : Credentials) (output : Bytes)
    (hstrlen : strlen p.password = some p.passlen) (hmin : 8 ≤ p.passlen) (hmax : p.passlen ≤ 63)
    (hssid : p.ssidlen ≤ 32) :
    passhash H p.password p.passlen p.ssid p.ssidlen output =
      some (0, (sumOf H p 1 4096).output ++ (sumOf H p 2 4096).output ++ output.drop 40,
        p.password) := by
  have hfirst := sumOf_sound H p 1 4096
  have hsecond := sumOf_sound H p 2 4096
  have hok : ¬(p.passlen < 8 ∨ 63 < p.passlen ∨ 32 < p.ssidlen) := by omega
  simp only [passhash, hstrlen, F_eq_sumOf, hfirst.password, hsecond.password, Option.bind_eq_bind,
    Option.bind_some, if_neg hok]
  rw [Prf.splice_zero, splice, hfirst.output, List.take_left' hfirst.output, hsecond.output,
    List.drop_append, hfirst.output, List.drop_drop,
    List.drop_eq_nil_of_le (by rw [hfirst.output]; decide)]
  rfl

end

/-- **The pieces make the key of `passhash`**, however they are cut: each but the last says that
there is more to do and the key is refused, then the key is there, and nothing changes any more. -/
theorem pieces_of_passhash (H : Hash) {password : Bytes} {passlen : Nat}
    (hstrlen : strlen password = some passlen) (hmin : 8 ≤ passlen) (hmax : passlen ≤ 63)
    {ssid : Bytes} (hssid : ssid.length ≤ 32) (its : Nat → Int)
    (hits : ∀ k, 1 ≤ its k ∧ its k ≤ 2 ^ 31 - 4097) (ph : PasshashT) (output : Bytes) :
    ∃ N phs output', initPasshash ph password passlen ssid ssid.length = some (0, phs 0) ∧
    Pieces H its N phs ∧
      passhash H password passlen ssid ssid.length output = some (0, output', password) ∧
      getPasshash (phs N) 40 = some (0, output'.take 40) ∧
      ∀ iterations, doPasshash H (phs N) iterations = some (-1, phs N) := by
  obtain ⟨p, hp⟩ : ∃ p : Credentials, p = ⟨password, passlen, ssid, ssid.length, by omega⟩ :=
    ⟨_, rfl⟩
  have hinit : initPasshash ph password passlen ssid ssid.length =
      some (0, ⟨List.replicate 20 0, 1, List.replicate 40 0, password, passlen, ssid,
          ssid.length, 0⟩) := by
    have hok : ¬(passlen < 8 ∨ 63 < passlen) := by omega
    simp only [initPasshash, hstrlen, Option.bind_eq_bind, Option.bind_some, if_neg hok]
  have hinv : Inv H p 0 0
      ⟨List.replicate 20 0, 1, List.replicate 40 0, password, passlen, ssid, ssid.length, 0⟩ := by
    subst hp
    exact ⟨rfl, rfl, rfl, rfl, rfl, rfl, List.length_replicate,
      fun k hk => absurd hk (Nat.not_lt_zero k),
      fun hzero => absurd rfl hzero, fun hzero => absurd rfl hzero⟩
  obtain ⟨N, phs, hfirst, hpieces, hend⟩ := pieces_end its hits hinv (by decide) (by decide)
  have hcount : 2 < (phs N).count := by
    rw [hend.count]
    decide
  have hkey := passhash_eq H p output (by rw [hp]; exact hstrlen) (by rw [hp]; exact hmin)
    (by rw [hp]; exact hmax) (by rw [hp]; exact hssid)
  have hlen : ((sumOf H p 1 4096).output ++ (sumOf H p 2 4096).output).length = 40 := by
    rw [← output_of_inv hend, hend.length]
  rw [hp] at hkey
  refine ⟨N, phs, _, by rw [hinit, hfirst], hpieces, hkey, ?_, fun iterations => ?_⟩
  · rw [getPasshash, if_pos ⟨hcount, le_rfl⟩, if_neg (by decide), output_of_inv hend, ← hp,
      List.take_left' hlen]
    exact congrArg (fun key => some ((0 : Int), key)) (List.take_of_length_le hlen.le)
  · rw [doPasshash, if_pos hcount]

/-- A password of eight letters, in pieces of a hundred digests. -/
theorem pieces_of_passhash_hundred :
    ∃ N phs output',
      initPasshash ⟨[], 0, [], [], 0, [], 0, 0⟩ (List.replicate 8 0x61 ++ [0]) 8 [0x62] 1 =
        some (0, phs 0) ∧
        Pieces Prf.sha1Hash (fun _ => 100) N phs ∧
        passhash Prf.sha1Hash (List.replicate 8 0x61 ++ [0]) 8 [0x62] 1 (List.replicate 40 0) =
          some (0, output', List.replicate 8 0x61 ++ [0]) ∧
        getPasshash (phs N) 40 = some (0, output'.take 40) ∧
        ∀ iterations, doPasshash Prf.sha1Hash (phs N) iterations = some (-1, phs N) :=
  pieces_of_passhash Prf.sha1Hash (by decide) (by decide) (by decide) (by decide) (fun _ => 100)
    (fun _ => ⟨by decide, by decide⟩) _ _

end BroadcomWl.Crypto.Passhash
