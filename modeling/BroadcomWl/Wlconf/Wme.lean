import BroadcomWl.Lib.Packed
import BroadcomWl.Lib.Strtoul
import BroadcomWl.Lib.Words

/-!
# WME parameters

`wlconf_set_wme` copies each of the variables `wme_ap_*` and `wme_sta_*` into an array of 100
characters, cuts it into seven fields there and puts the numbers into a parameter record, which is
one and the same for the four access categories of a mode. A write behind the array and a loop that
does not end are faults.

**Fields.** `unpack_spec` says that the strings the pointers lead to in the end are the pieces
between single blanks.

**Exponents.** The loop that shifts a number until it is zero counts its binary digits, and never
ends for a negative one (`shiftLoop_sound`, `shiftLoop_complete`). `set_wme_iff` says for which
values all eight requests are made and are right. -/

namespace BroadcomWl.Wlconf.Wme

open BroadcomWl.Lib

/-! ## The code -/

def nul : Char := Char.ofNat 0

/-- A string of C. -/
structure CStr where
  chars : List Char
  nul_not_mem : nul ∉ chars

/-- What goes wrong: an access behind the array, or no end yet. -/
inductive Fault
  | overrun
  | stuck
  deriving DecidableEq, Repr

/-- The characters of an array. -/
abbrev Chars := Nat → Char

/-- `sizeof(nv)` -/
def nvSize : Nat := 100

/-- `snprintf(nv, sizeof(nv), ...)` -/
def snprintf (nv : Chars) (s : List Char) : Chars := fun i =>
  if i < min s.length (nvSize - 1) then s.getD i nul else if i =
    min s.length (nvSize - 1) then nul else nv i

/-- `strcpy(nv, nv_value)` -/
def strcpy (nv : Chars) (s : CStr) : Except Fault Chars :=
  if s.chars.length < nvSize then
    .ok fun i => if i ≤ s.chars.length then s.chars.getD i nul else nv i
  else .error .overrun

/-- `while (*v && *v != ' ') v++`, with so many characters left in the array. -/
def skipField (nv : Chars) : Nat → Nat → Except Fault Nat
  | 0, _ => .error .overrun
  | n + 1, v => if nv v ≠ nul ∧ nv v ≠ ' ' then skipField nv n (v + 1) else .ok v

/-- `if (*v) { *v = 0; v++; }` -/
def cutField (nv : Chars) (v : Nat) : Nat × Chars :=
  if nv v ≠ nul then (v + 1, Function.update nv v nul) else (v, nv)

/-- The loop over so many `locals`, from `v` on: the pointers, and the array with the fields cut. -/
def unpack : Nat → Nat → Chars → Except Fault (List Nat × Chars)
  | 0, _, nv => .ok ([], nv)
  | k + 1, v, nv => do
    let e ← skipField nv (nvSize - v) v
    let r ← unpack k (cutField nv e).1 (cutField nv e).2
    .ok (v :: r.1, r.2)

/-- The string at a pointer into the array. -/
def stringAt (nv : Chars) (p : Nat) : List Char :=
  ((List.range' p (nvSize - p)).map nv).takeWhile (· ≠ nul)

/-- A value of type `int`. -/
def int (x : Int) : Int := x.bmod (2 ^ 32)

/-- `atoi`. For a number that is no `int` the standard leaves it open what comes out; here it wraps
around. -/
def atoi (a : List Char) : Int :=
  let s := readSign (a.dropWhile isSpace)
  let n : Int := digitsValue (s.2.takeWhile Char.isDigit)
  int (if s.1 then -n else n)

/-- `for (; val; val >>= 1, k++)` -/
def shiftLoop : Nat → Int → Nat → Except Fault Nat
  | 0, _, _ => .error .stuck
  | fuel + 1, val, k => if val = 0 then .ok k else shiftLoop fuel (val >>> (1 : Nat)) (k + 1)

/-- `edcf_acparam_t` -/
structure AcParam where
  aci : UInt8
  ecw : UInt8
  txop : UInt16
  deriving DecidableEq, Repr

/-- After `memset`. -/
def AcParam.zero : AcParam := ⟨0, 0, 0⟩

def edcfEcwminMask : UInt8 := 0x0f
def edcfEcwmaxMask : UInt8 := 0xf0
def edcfEcwmaxShift : UInt8 := 4
def edcfAifsnMask : UInt8 := 0x0f
def edcfAciMask : UInt8 := 0x60
def edcfAciShift : UInt8 := 5
def edcfAcmMask : UInt8 := 0x10

/-- `k ? k - 1 : 0` -/
def exponent (k : Nat) : UInt8 := UInt8.ofNat (if k ≠ 0 then k - 1 else 0)

/-- update CWmin and CWmax -/
def updateEcw (ecw : UInt8) (kmin kmax : Nat) : UInt8 :=
  let ecw := ecw &&& ~~~edcfEcwminMask
  let ecw := ecw ||| (exponent kmin &&& edcfEcwminMask)
  let ecw := ecw &&& ~~~edcfEcwmaxMask
  ecw ||| ((exponent kmax <<< edcfEcwmaxShift) &&& edcfEcwmaxMask)

/-- update AIFSN, ac and acm -/
def updateAci (aci : UInt8) (aifsn : Int) (j : Nat) (acm : Bool) : UInt8 :=
  let aci := aci &&& ~~~edcfAifsnMask
  let aci := aci ||| (UInt8.ofNat (aifsn % 256).toNat &&& edcfAifsnMask)
  let aci := aci &&& ~~~edcfAciMask
  let aci := aci ||| (UInt8.ofNat j <<< edcfAciShift)
  let aci := aci &&& ~~~edcfAcmMask
  aci ||| ((if acm then 1 else 0 : UInt8) <<< 4)

/-- What the driver is given for a category, with the strings it was made of. -/
structure Request where
  fields : List (List Char)
  param : AcParam

/-- The parameters from the fields; `txopB` says which of the two TXOPs is taken. -/
def update (fuel : Nat) (txopB : Bool) (j : Nat) (fields : List (List Char)) (p : AcParam) :
    Except Fault Request := do
  let kmin ← shiftLoop fuel (int (atoi (fields.getD 0 []) + 1)) 0
  let kmax ← shiftLoop fuel (int (atoi (fields.getD 1 []) + 1)) 0
  let txop := atoi (if txopB then fields.getD 3 [] else fields.getD 4 [])
  .ok ⟨fields, updateAci p.aci (atoi (fields.getD 2 [])) j (fields.getD 5 [] = "on".toList),
    updateEcw p.ecw kmin kmax, UInt16.ofNat (txop.tdiv 32 % 2 ^ 16).toNat⟩

/-- The number of fields. -/
def localsCount : Nat := 7

/-- One category: the array is left as it has been cut. -/
def setAc (fuel : Nat) (txopB : Bool) (nv : Chars) (j : Nat) (value : CStr) (p : AcParam) :
    Except Fault (Request × Chars) := do
  let nv ← strcpy nv value
  let r ← unpack localsCount 0 nv
  let request ← update fuel txopB j (r.1.map (stringAt r.2)) p
  .ok (request, r.2)

/-- The modes of the first loop. -/
inductive WmeMode
  | ap
  | sta

/-- `mode[i].str` -/
def WmeMode.str : WmeMode → List Char
  | .ap => "ap".toList
  | .sta => "sta".toList

/-- The access categories. -/
inductive Ac
  | be
  | bk
  | vi
  | vo

/-- `ac[j]` -/
def Ac.str : Ac → List Char
  | .be => "be".toList
  | .bk => "bk".toList
  | .vi => "vi".toList
  | .vo => "vo".toList

def acs : List Ac := [.be, .bk, .vi, .vo]

/-- `nv_name`, the name of a variable; `pre` is its front, as `wl0_`. -/
def nvName (pre : List Char) (mode : WmeMode) (ac : Ac) : List Char :=
  pre ++ "wme_".toList ++ mode.str ++ "_".toList ++ ac.str

section

variable (fuel : Nat) (txopB : Bool) (pre : List Char) (value : WmeMode → Ac → CStr)

/-- The categories of a mode, one after the other in the same array and the same record. -/
def setMode (mode : WmeMode) :
    List (Nat × Ac) → Chars → AcParam → Except Fault (List Request × Chars)
  | [], nv, _ => .ok ([], nv)
  | (j, ac) :: l, nv, p => do
    let r ← setAc fuel txopB (snprintf nv (nvName pre mode ac)) j (value mode ac) p
    let rs ← setMode mode l r.2 r.1.param
    .ok (r.1 :: rs.1, rs.2)

/-- `PHY_TYPE_B` -/
def phyTypeB : Nat := 1

/-- The first loop of `wlconf_set_wme`. -/
def wlconfSetWme (phytype : Nat) (gmode : CStr) (nv : Chars) : Except Fault (List Request) := do
  let txopB := phytype = phyTypeB || atoi gmode.chars = 0
  let ap ← setMode fuel txopB pre value .ap ((List.range 4).zip acs) nv .zero
  let sta ← setMode fuel txopB pre value .sta ((List.range 4).zip acs) ap.2 .zero
  .ok (ap.1 ++ sta.1)

end

theorem ok_bind {α β : Type} (a : α) (f : α → Except Fault β) : (.ok a >>= f) = f a := rfl

theorem map_ok {α β : Type} {x : Except Fault α} {f : α → β} {b : β} (h : x.map f = .ok b) :
    ∃ a, x = .ok a ∧ f a = b := by
  cases x with
  | error e => cases h
  | ok a => exact ⟨a, rfl, Except.ok.inj h⟩

theorem bind_ok {α β : Type} {x : Except Fault α} {f : α → Except Fault β} {b : β}
    (h : x >>= f = .ok b) :
    ∃ a, x = .ok a ∧ f a = .ok b := by
  cases x with
  | error e => cases h
  | ok a => exact ⟨a, rfl, h⟩

/-! ## Fields -/

section

/-- A string stands in the array, with a NUL behind it. -/
structure Holds (nv : Chars) (v : Nat) (s : List Char) : Prop where
  getD : ∀ i ≤ s.length, nv (v + i) = s.getD i nul
  nul_not_mem : nul ∉ s
  fits : v + s.length < nvSize

variable {nv nv' : Chars} {v : Nat} {s w : List Char}

theorem Holds.end_nul (h : Holds nv v s) : nv (v + s.length) = nul := by
  rw [h.getD _ le_rfl, List.getD_eq_default _ _ le_rfl]

theorem Holds.congr (h : Holds nv v s) (hcongr : ∀ i ≤ s.length, nv' (v + i) = nv (v + i)) :
    Holds nv' v s :=
  ⟨fun i hi => (hcongr i hi).trans (h.getD i hi), h.nul_not_mem, h.fits⟩

theorem Holds.tail {c : Char} (h : Holds nv v (c :: s)) : Holds nv (v + 1) s := by
  refine ⟨fun i hi => ?_, fun hmem => h.nul_not_mem (List.mem_cons_of_mem _ hmem), ?_⟩
  · have hcell := h.getD (i + 1) (Nat.succ_le_succ hi)
    rwa [Nat.add_comm i, ← Nat.add_assoc, Nat.add_comm 1 i, List.getD_cons_succ] at hcell
  · have hfits := h.fits
    rw [List.length_cons] at hfits
    omega

theorem Holds.head {c : Char} (h : Holds nv v (c :: s)) : nv v = c := h.getD 0 (Nat.zero_le _)

theorem Holds.drop (h : Holds nv v (w ++ ' ' :: s)) : Holds nv (v + w.length + 1) s := by
  induction w generalizing v with
  | nil => exact h.tail
  | cons c w ih =>
      have hrest := ih h.tail
      rwa [Nat.add_right_comm v 1] at hrest

theorem Holds.stringAt (h : Holds nv v s) : stringAt nv v = s := by
  have hfits := h.fits
  induction s generalizing v with
  | nil =>
      obtain ⟨n, hn⟩ : ∃ n, nvSize - v = n + 1 :=
        ⟨nvSize - v - 1, by rw [List.length_nil] at hfits; omega⟩
      have hend := h.end_nul
      rw [List.length_nil, Nat.add_zero] at hend
      rw [Wme.stringAt, hn, List.range'_succ, List.map_cons,
        List.takeWhile_cons_of_neg (by simp [hend])]
  | cons c s ih =>
      obtain ⟨n, hn⟩ : ∃ n, nvSize - v = n + 1 :=
        ⟨nvSize - v - 1, by rw [List.length_cons] at hfits; omega⟩
      have hc : c ≠ nul := fun hnul => h.nul_not_mem (hnul ▸ List.mem_cons_self)
      have hrest := ih h.tail h.tail.fits
      have hsize : nvSize - (v + 1) = n := by omega
      rw [Wme.stringAt, hsize] at hrest
      rw [Wme.stringAt, hn, List.range'_succ, List.map_cons, h.head,
        List.takeWhile_cons_of_pos (by simp [hc]), hrest]

/-- **The end of a field**: the first blank, or the NUL. -/
theorem skipField_spec (h : Holds nv v (w ++ s)) (hw : ' ' ∉ w)
    (hs : s = [] ∨ ∃ t, s = ' ' :: t) {n : Nat} (hn : w.length < n) :
    skipField nv n v = .ok (v + w.length) := by
  induction w generalizing v n with
  | nil =>
      obtain ⟨n, rfl⟩ := Nat.exists_eq_succ_of_ne_zero (Nat.ne_of_gt hn)
      rw [skipField, if_neg, List.length_nil, Nat.add_zero]
      intro ⟨hnul, hblank⟩
      cases hs with
      | inl hnil =>
          subst hnil
          exact hnul h.end_nul
      | inr hcons =>
          obtain ⟨t, rfl⟩ := hcons
          exact hblank h.head
  | cons c w ih =>
      obtain ⟨n, rfl⟩ := Nat.exists_eq_succ_of_ne_zero (Nat.ne_of_gt (Nat.zero_lt_of_lt hn))
      rw [List.mem_cons, not_or] at hw
      have hc : c ≠ nul := fun hnul => h.nul_not_mem (hnul ▸ List.mem_cons_self)
      rw [skipField, h.head, if_pos ⟨hc, Ne.symm hw.1⟩, ih h.tail hw.2 (Nat.lt_of_succ_lt_succ hn),
        List.length_cons, Nat.add_assoc, Nat.add_comm 1]

theorem exists_field (s : List Char) :
    ∃ w t, ' ' ∉ w ∧ s = w ++ t ∧ (t = [] ∨ ∃ u, t = ' ' :: u) := by
  induction s with
  | nil => exact ⟨[], [], List.not_mem_nil, rfl, .inl rfl⟩
  | cons c s ih =>
      by_cases hc : c = ' '
      · exact ⟨[], c :: s, List.not_mem_nil, rfl, .inr ⟨s, by rw [hc]⟩⟩
      · obtain ⟨w, t, hw, hs, ht⟩ := ih
        refine ⟨c :: w, t, ?_, by rw [hs, List.cons_append], ht⟩
        rw [List.mem_cons, not_or]
        exact ⟨Ne.symm hc, hw⟩

/-- **A cut** leaves the field, and behind it the string of the other pieces. -/
theorem cutField_spec (h : Holds nv v s) (hw : ' ' ∉ w) {t : List Char} (hs : s = w ++ t)
    (ht : t = [] ∨ ∃ u, t = ' ' :: u) :
    ∃ u, Holds (cutField nv (v + w.length)).2 (cutField nv (v + w.length)).1 u ∧
      Holds (cutField nv (v + w.length)).2 v w ∧
      (∀ k, (List.range (k + 1)).map (pieceAt ' ' s) = w :: (List.range k).map (pieceAt ' ' u)) ∧
      v + w.length ≤ (cutField nv (v + w.length)).1 ∧
      ∀ i, i < v + w.length ∨ nv i = nul → (cutField nv (v + w.length)).2 i = nv i := by
  have hpieces (k : Nat) : (List.range (k + 1)).map (pieceAt ' ' s) =
      pieceAt ' ' s 0 :: (List.range k).map fun i => pieceAt ' ' s (i + 1) := by
    rw [List.range_succ_eq_map, List.map_cons, List.map_map]
    rfl
  simp only [hpieces]
  unfold cutField
  cases ht with
  | inl hnil =>
      -- the last field: the others are empty
      rw [hnil, List.append_nil] at hs
      subst hs
      have hend := h.end_nul
      rw [if_neg (not_not.mpr hend)]
      refine ⟨[], ⟨fun i hi => ?_, List.not_mem_nil, h.fits⟩, h, fun k => ?_, le_rfl,
        fun _ _ => rfl⟩
      · obtain rfl : i = 0 := Nat.le_zero.mp hi
        exact hend
      · rw [pieceAt_zero_of_not_mem hw]
        refine congrArg (s :: ·) (List.map_congr_left fun i _ => ?_)
        rw [pieceAt_succ_of_not_mem hw]
        cases i with
        | zero => exact (pieceAt_zero_of_not_mem List.not_mem_nil).symm
        | succ i => exact (pieceAt_succ_of_not_mem List.not_mem_nil i).symm
  | inr hcons =>
      obtain ⟨u, hu⟩ := hcons
      rw [hu] at hs
      subst hs
      have hfits := h.fits
      rw [List.length_append, List.length_cons] at hfits
      have hblank : nv (v + w.length) = ' ' := by
        rw [h.getD _ (by rw [List.length_append]; omega), List.getD_append_right _ _ _ _ le_rfl,
          Nat.sub_self]
        rfl
      have hne : nv (v + w.length) ≠ nul := by
        rw [hblank]
        decide
      rw [if_pos hne]
      refine ⟨u, h.drop.congr fun i _ => ?_, ⟨fun i hi => ?_, ?_, by omega⟩, fun k => ?_,
        Nat.le_succ _, fun i hi => ?_⟩
      · exact Function.update_of_ne (by omega) _ _
      · dsimp only
        cases Nat.lt_or_eq_of_le hi with
        | inl hlt =>
            rw [Function.update_of_ne (by omega), h.getD i (by rw [List.length_append]; omega),
              List.getD_append _ _ _ _ hlt]
        | inr heq => rw [heq, Function.update_self, List.getD_eq_default _ _ le_rfl]
      · exact fun hmem => h.nul_not_mem (List.mem_append_left _ hmem)
      · simp only [pieceAt_zero_append hw, pieceAt_succ_append hw]
      · refine Function.update_of_ne (fun heq => ?_) _ _
        cases hi with
        | inl hlt => omega
        | inr hnul => exact hne (heq ▸ hnul)

/-- **The loop over the fields** ends, stays in the array and leaves pointers to the pieces. What is
in front of `v` and the NULs are not changed. -/
theorem unpack_spec (k : Nat) (h : Holds nv v s) :
    ∃ ps nv', unpack k v nv = .ok (ps, nv') ∧
    ps.map (Wme.stringAt nv') = (List.range k).map (pieceAt ' ' s) ∧
      ∀ i, i < v ∨ nv i = nul → nv' i = nv i := by
  induction k generalizing v s nv with
  | zero => exact ⟨[], nv, rfl, rfl, fun _ _ => rfl⟩
  | succ k ih =>
      obtain ⟨w, t, hw, hs, ht⟩ := exists_field s
      have hskip : skipField nv (nvSize - v) v = .ok (v + w.length) := by
        refine skipField_spec (hs ▸ h) hw ht ?_
        have hfits := h.fits
        rw [hs, List.length_append] at hfits
        omega
      obtain ⟨u, hrest, hfield, hpieces, hle, hcut⟩ := cutField_spec h hw hs ht
      obtain ⟨ps, nv', hrun, hps, hframe⟩ := ih hrest
      have hfield' : Holds nv' v w := by
        refine hfield.congr fun i hi => hframe _ ?_
        cases Nat.lt_or_eq_of_le hi with
        | inl hlt => exact .inl (by omega)
        | inr heq => exact .inr (heq ▸ hfield.end_nul)
      refine ⟨v :: ps, nv', ?_, ?_, fun i hi => ?_⟩
      · rw [unpack, hskip, ok_bind, hrun, ok_bind]
      · rw [List.map_cons, hfield'.stringAt, hps, hpieces]
      · have hfirst := hcut i (hi.imp (by omega) id)
        rw [← hfirst]
        refine hframe i ?_
        rw [hfirst]
        exact hi.imp (by omega) id

theorem holds_copied (s : CStr) (hs : s.chars.length < nvSize) (nv : Chars) :
    Holds (fun i => if i ≤ s.chars.length then s.chars.getD i nul else nv i) 0 s.chars := by
  refine ⟨fun i hi => ?_, s.nul_not_mem, by omega⟩
  simp only [Nat.zero_add]
  exact if_pos hi

end

/-! ## Exponents -/

section

/-- The number of binary digits. -/
def bitLength (n : Nat) : Nat := if n = 0 then 0 else Nat.log2 n + 1

theorem bitLength_half {n : Nat} (hn : n ≠ 0) : bitLength n = bitLength (n / 2) + 1 := by
  unfold bitLength
  rw [if_neg hn]
  by_cases hone : n / 2 = 0
  · rw [if_pos hone, Nat.log2_def, if_neg (by omega)]
  · rw [if_neg hone, Nat.log2_def, if_pos (by omega)]

theorem shiftRight_natCast (n : Nat) : (n : Int) >>> (1 : Nat) = ((n / 2 : Nat) : Int) := by
  rw [Int.shiftRight_eq_div_pow]
  norm_num

/-- **The loop** ends only for a number that is not negative, and counts its digits. -/
theorem shiftLoop_sound {fuel k k' : Nat} {val : Int} (h : shiftLoop fuel val k = .ok k') :
    0 ≤ val ∧ k' = k + bitLength val.toNat := by
  induction fuel generalizing val k with
  | zero => cases h
  | succ fuel ih =>
      rw [shiftLoop] at h
      by_cases hzero : val = 0
      · rw [if_pos hzero] at h
        cases h
        subst hzero
        exact ⟨le_rfl, rfl⟩
      · rw [if_neg hzero] at h
        obtain ⟨hnonneg, hk⟩ := ih h
        rw [Int.shiftRight_eq_div_pow] at hnonneg
        have hpos : 0 ≤ val := by omega
        obtain ⟨n, rfl⟩ := Int.eq_ofNat_of_zero_le hpos
        refine ⟨hpos, ?_⟩
        rw [hk, shiftRight_natCast, Int.toNat_natCast, Int.toNat_natCast,
          bitLength_half (n := n) (by omega)]
        omega

theorem shiftLoop_complete {fuel n : Nat} (h : n < fuel) (k : Nat) :
    ∃ k', shiftLoop fuel n k = .ok k' := by
  induction fuel generalizing n k with
  | zero => exact absurd h (Nat.not_lt_zero n)
  | succ fuel ih =>
      rw [shiftLoop]
      by_cases hzero : (n : Int) = 0
      · exact ⟨k, if_pos hzero⟩
      · rw [if_neg hzero, shiftRight_natCast]
        exact ih (by omega) (k + 1)

theorem exponent_bitLength {n : Nat} (hn : n ≠ 0) :
    exponent (bitLength n) = UInt8.ofNat (Nat.log2 n) := by
  rw [exponent, bitLength, if_neg hn, if_pos (Nat.succ_ne_zero _), Nat.add_sub_cancel]

/-- **The octet** holds both exponents, modulo 16, and nothing of what was there. -/
theorem toNat_updateEcw (ecw : UInt8) (kmin kmax : Nat) :
    (updateEcw ecw kmin kmax).toNat =
      (exponent kmin).toNat % 16 + 16 * ((exponent kmax).toNat % 16) := by
  have hmin :
      ((ecw &&& ~~~edcfEcwminMask) ||| (exponent kmin &&& edcfEcwminMask)) &&& ~~~edcfEcwmaxMask =
      exponent kmin &&& edcfEcwminMask := by
    have hnone : ~~~edcfEcwminMask &&& ~~~edcfEcwmaxMask = 0 := by decide
    have hall : edcfEcwminMask &&& ~~~edcfEcwmaxMask = edcfEcwminMask := by decide
    rw [or_and_octet, UInt8.and_assoc, hnone, UInt8.and_zero, UInt8.zero_or, UInt8.and_assoc, hall]
  have hlow (b : UInt8) : b &&& edcfEcwminMask = UInt8.ofNat (b.toNat % 16) := by
    refine UInt8.toNat_inj.mp ?_
    rw [UInt8.toNat_and, UInt8.toNat_ofNat']
    have hmask : edcfEcwminMask.toNat = 2 ^ 4 - 1 := rfl
    rw [hmask, Nat.and_two_pow_sub_one_eq_mod]
    omega
  have hall : ∀ a < 16, ∀ b < 256,
      (UInt8.ofNat a ||| ((UInt8.ofNat b <<< edcfEcwmaxShift) &&& edcfEcwmaxMask)).toNat =
      a + 16 * (b % 16) := by
    decide +kernel
  have hboth :=
    hall ((exponent kmin).toNat % 16) (Nat.mod_lt _ (by decide)) (exponent kmax).toNat
      (UInt8.toNat_lt _)
  rw [UInt8.ofNat_toNat] at hboth
  rw [updateEcw, hmin, hlow, hboth]

end

/-! ## Requests -/

/-- A contention window whose successor is an `int` that is not negative. -/
def Countable (cw : Int) : Prop := -1 ≤ cw ∧ cw < 2 ^ 31 - 1

instance (cw : Int) : Decidable (Countable cw) := inferInstanceAs (Decidable (_ ∧ _))

/-- A value that fits and has two such numbers in front. -/
structure Good (s : CStr) : Prop where
  fits : s.chars.length < nvSize
  cwmin : Countable (atoi (pieceAt ' ' s.chars 0))
  cwmax : Countable (atoi (pieceAt ' ' s.chars 1))

/-- There is no word behind an empty field. -/
def SingleBlanks (s : CStr) : Prop :=
  ∀ i < localsCount, pieceAt ' ' s.chars i = [] → ∀ j, i < j → pieceAt ' ' s.chars j = []

/-- The fields are those of the value, and for a window that is not negative the exponent is that of
the window. -/
structure Right (split : Char → List Char → Nat → List Char) (s : CStr) (r : Request) : Prop where
  fields : r.fields = (List.range localsCount).map (split ' ' s.chars)
  ecwmin : 0 ≤ atoi (r.fields.getD 0 []) →
    r.param.ecw.toNat % 16 = Nat.log2 (atoi (r.fields.getD 0 []) + 1).toNat % 16
  ecwmax : 0 ≤ atoi (r.fields.getD 1 []) →
    r.param.ecw.toNat / 16 = Nat.log2 (atoi (r.fields.getD 1 []) + 1).toNat % 16

/-- The eight values. -/
def strings (value : WmeMode → Ac → CStr) : List CStr := acs.map (value .ap) ++ acs.map (value .sta)

/-- The loops end without a fault, and all requests are right. -/
def Meets (split : Char → List Char → Nat → List Char) (phytype : Nat) (gmode : CStr)
    (pre : List Char) (nv : Chars) (value : WmeMode → Ac → CStr) : Prop :=
  ∃ fuel rs, wlconfSetWme fuel pre value phytype gmode nv = .ok rs ∧
    List.Forall₂ (Right split) (strings value) rs

section

variable {fuel j : Nat} {txopB : Bool} {nv nv' : Chars} {s : CStr} {p : AcParam} {r : Request}
  {pre : List Char}

theorem atoi_range (a : List Char) : -2 ^ 31 ≤ atoi a ∧ atoi a < 2 ^ 31 := by
  unfold atoi int
  have hlow := Int.le_bmod (x := if (readSign (a.dropWhile isSpace)).1 = true
    then -(digitsValue ((readSign (a.dropWhile isSpace)).2.takeWhile Char.isDigit) : Int)
    else digitsValue ((readSign (a.dropWhile isSpace)).2.takeWhile Char.isDigit)) (m := 2 ^ 32)
      (by decide)
  have hhigh := Int.bmod_lt (x := if (readSign (a.dropWhile isSpace)).1 = true
    then -(digitsValue ((readSign (a.dropWhile isSpace)).2.takeWhile Char.isDigit) : Int)
    else digitsValue ((readSign (a.dropWhile isSpace)).2.takeWhile Char.isDigit)) (m := 2 ^ 32)
      (by decide)
  exact ⟨hlow, hhigh⟩

theorem int_succ {x : Int} (hlow : -2 ^ 31 ≤ x) (hhigh : x < 2 ^ 31) :
    int (x + 1) = if x < 2 ^ 31 - 1 then x + 1 else -2 ^ 31 := by
  unfold int
  rw [Int.bmod_def]
  split_ifs <;> omega

theorem int_succ_atoi (a : List Char) :
    (0 ≤ int (atoi a + 1) ↔ Countable (atoi a)) ∧
    (Countable (atoi a) → int (atoi a + 1) = atoi a + 1) := by
  obtain ⟨hlow, hhigh⟩ := atoi_range a
  rw [int_succ hlow hhigh, Countable]
  split_ifs with h
  · exact ⟨⟨fun hpos => ⟨by omega, h⟩, fun hcw => by omega⟩, fun _ => rfl⟩
  · exact ⟨⟨fun hpos => by omega, fun hcw => absurd hcw.2 h⟩, fun hcw => absurd hcw.2 h⟩

theorem exponent_of_shiftLoop {a : List Char} {k : Nat}
    (h : shiftLoop fuel (int (atoi a + 1)) 0 = .ok k) :
    Countable (atoi a) ∧
    (0 ≤ atoi a → (exponent k).toNat % 16 = Nat.log2 (atoi a + 1).toNat % 16) := by
  obtain ⟨hnonneg, hk⟩ := shiftLoop_sound h
  have hcw := (int_succ_atoi a).1.mp hnonneg
  refine ⟨hcw, fun hpos => ?_⟩
  rw [hk, (int_succ_atoi a).2 hcw, Nat.zero_add, exponent_bitLength (by omega), UInt8.toNat_ofNat']
  omega

theorem exists_shiftLoop {a : List Char} (h : Countable (atoi a)) (hfuel : 2 ^ 31 ≤ fuel) :
    ∃ k, shiftLoop fuel (int (atoi a + 1)) 0 = .ok k := by
  rw [(int_succ_atoi a).2 h]
  obtain ⟨hlow, hhigh⟩ := h
  obtain ⟨n, hn⟩ := Int.eq_ofNat_of_zero_le (show 0 ≤ atoi a + 1 by omega)
  rw [hn]
  exact shiftLoop_complete (by omega) 0

theorem setAc_of_fits (fuel : Nat) (txopB : Bool) (nv : Chars) (j : Nat) (p : AcParam)
    (hs : s.chars.length < nvSize) :
    ∃ nv', setAc fuel txopB nv j s p =
      (update fuel txopB j ((List.range localsCount).map (pieceAt ' ' s.chars)) p).map fun r =>
        (r, nv') := by
  obtain ⟨ps, nv', hrun, hps, -⟩ := unpack_spec localsCount (holds_copied s hs nv)
  refine ⟨nv', ?_⟩
  rw [setAc, strcpy, if_pos hs, ok_bind, hrun, ok_bind, hps]
  rfl

/-- **A request that is made** is right, and the value was good. -/
theorem setAc_sound (h : setAc fuel txopB nv j s p = .ok (r, nv')) :
    Good s ∧ Right pieceAt s r := by
  by_cases hs : s.chars.length < nvSize
  · obtain ⟨left, hset⟩ := setAc_of_fits fuel txopB nv j p hs
    rw [hset] at h
    obtain ⟨r', hupdate, heq⟩ := map_ok h
    cases heq
    rw [update] at hupdate
    obtain ⟨kmin, hmin, h⟩ := bind_ok hupdate
    obtain ⟨kmax, hmax, h⟩ := bind_ok h
    cases h
    obtain ⟨hcwmin, hecwmin⟩ := exponent_of_shiftLoop hmin
    obtain ⟨hcwmax, hecwmax⟩ := exponent_of_shiftLoop hmax
    refine ⟨⟨hs, hcwmin, hcwmax⟩, rfl, fun hpos => ?_, fun hpos => ?_⟩
    · rw [← hecwmin hpos, toNat_updateEcw]
      omega
    · rw [← hecwmax hpos, toNat_updateEcw]
      omega
  · rw [setAc, strcpy, if_neg hs] at h
    cases h

theorem setAc_complete (h : Good s) (hfuel : 2 ^ 31 ≤ fuel) (txopB : Bool) (nv : Chars) (j : Nat)
    (p : AcParam) :
    ∃ r nv', setAc fuel txopB nv j s p = .ok (r, nv') := by
  obtain ⟨kmin, hmin⟩ := exists_shiftLoop h.cwmin hfuel
  obtain ⟨kmax, hmax⟩ := exists_shiftLoop h.cwmax hfuel
  have hfields (i : Nat) (hi : i < localsCount) :
      ((List.range localsCount).map (pieceAt ' ' s.chars)).getD i [] = pieceAt ' ' s.chars i := by
    rw [List.getD_eq_getElem _ _ (by rwa [List.length_map, List.length_range]), List.getElem_map,
      List.getElem_range]
  obtain ⟨left, hset⟩ := setAc_of_fits fuel txopB nv j p h.fits
  rw [hset, update, hfields 0 (by decide), hfields 1 (by decide), hmin, ok_bind, hmax, ok_bind]
  exact ⟨_, left, rfl⟩

/-! ## All categories -/

variable {phytype : Nat} {gmode : CStr} {value : WmeMode → Ac → CStr} {mode : WmeMode}

theorem setMode_sound {l : List (Nat × Ac)} {rs : List Request}
    (h : setMode fuel txopB pre value mode l nv p = .ok (rs, nv')) :
    List.Forall₂ (fun s r => Good s ∧ Right pieceAt s r) (l.map fun a => value mode a.2) rs := by
  induction l generalizing nv p rs nv' with
  | nil =>
      cases h
      exact .nil
  | cons a l ih =>
      rw [setMode] at h
      obtain ⟨⟨r, left⟩, hr, h⟩ := bind_ok h
      obtain ⟨⟨rs', nv''⟩, hrs, h⟩ := bind_ok h
      cases h
      exact .cons (setAc_sound hr) (ih hrs)

theorem setMode_complete {l : List (Nat × Ac)} (h : ∀ ac, Good (value mode ac))
    (hfuel : 2 ^ 31 ≤ fuel) (txopB : Bool) (pre : List Char) (nv : Chars) (p : AcParam) :
    ∃ rs nv', setMode fuel txopB pre value mode l nv p = .ok (rs, nv') := by
  induction l generalizing nv p with
  | nil => exact ⟨[], nv, rfl⟩
  | cons a l ih =>
      obtain ⟨r, left, hr⟩ :=
        setAc_complete (h a.2) hfuel txopB (snprintf nv (nvName pre mode a.2)) a.1 p
      obtain ⟨rs, nv', hrs⟩ := ih left r.param
      rw [setMode, hr, ok_bind, hrs, ok_bind]
      exact ⟨_, _, rfl⟩

theorem wlconfSetWme_sound {rs : List Request}
    (h : wlconfSetWme fuel pre value phytype gmode nv = .ok rs) :
    List.Forall₂ (fun s r => Good s ∧ Right pieceAt s r) (strings value) rs := by
  rw [wlconfSetWme] at h
  obtain ⟨⟨ap, left⟩, hap, h⟩ := bind_ok h
  obtain ⟨⟨sta, left'⟩, hsta, h⟩ := bind_ok h
  cases h
  exact List.rel_append (setMode_sound hap) (setMode_sound hsta)

theorem wlconfSetWme_complete (phytype : Nat) (gmode : CStr) (pre : List Char) (nv : Chars)
    (h : ∀ mode ac, Good (value mode ac)) :
    ∃ rs, wlconfSetWme (2 ^ 31) pre value phytype gmode nv = .ok rs := by
  obtain ⟨ap, left, hap⟩ := setMode_complete (l := (List.range 4).zip acs) (h .ap) le_rfl
    (phytype = phyTypeB || atoi gmode.chars = 0) pre nv .zero
  obtain ⟨sta, left', hsta⟩ := setMode_complete (l := (List.range 4).zip acs) (h .sta) le_rfl
    (phytype = phyTypeB || atoi gmode.chars = 0) pre left .zero
  rw [wlconfSetWme, hap, ok_bind, hsta, ok_bind]
  exact ⟨_, rfl⟩

theorem forall_of_strings {P : CStr → Prop} {rs : List Request}
    (h : List.Forall₂ (fun s _ => P s) (strings value) rs) (mode : WmeMode) (ac : Ac) :
    P (value mode ac) := by
  have hall : ∀ s ∈ strings value, P s := by
    intro s hs
    obtain ⟨i, hi, rfl⟩ := List.getElem_of_mem hs
    exact (List.forall₂_iff_get.mp h).2 i hi (by rw [← h.length_eq]; exact hi)
  apply hall
  unfold strings acs
  cases mode <;> cases ac <;> simp

theorem mem_strings {s : CStr} (hs : s ∈ strings value) : ∃ mode ac, s = value mode ac := by
  rw [strings, List.mem_append, List.mem_map, List.mem_map] at hs
  cases hs with
  | inl hap =>
      obtain ⟨ac, -, rfl⟩ := hap
      exact ⟨.ap, ac, rfl⟩
  | inr hsta =>
      obtain ⟨ac, -, rfl⟩ := hsta
      exact ⟨.sta, ac, rfl⟩

theorem Right.words (h : Right pieceAt s r) (hs : SingleBlanks s) : Right wordAt s r := by
  refine ⟨h.fields.trans (List.map_congr_left fun i hi => ?_), h.ecwmin, h.ecwmax⟩
  exact (piece_eq_word_iff ' ' s.chars localsCount).mpr hs i (List.mem_range.mp hi)

theorem good_of_meets {split : Char → List Char → Nat → List Char}
    (h : Meets split phytype gmode pre nv value) (mode : WmeMode) (ac : Ac) :
    Good (value mode ac) := by
  obtain ⟨fuel, rs, hrun, -⟩ := h
  exact forall_of_strings ((wlconfSetWme_sound hrun).imp fun _ _ hright => hright.1) mode ac

end

/-- **All eight requests** are made and right if and only if each value has at most 99 characters
and begins with two windows from -1 to `2 ^ 31 - 2`. That is so for the pieces between single
blanks; the fields are the words too if no word comes behind an empty field. -/
theorem set_wme_iff (phytype : Nat) (gmode : CStr) (pre : List Char) (nv : Chars)
    (value : WmeMode → Ac → CStr) :
    (Meets pieceAt phytype gmode pre nv value ↔ ∀ mode ac, Good (value mode ac)) ∧
      (Meets wordAt phytype gmode pre nv value ↔ ∀ mode ac, Good (value mode ac) ∧
        SingleBlanks (value mode ac)) := by
  refine ⟨⟨good_of_meets, fun h => ?_⟩, fun h mode ac => ⟨good_of_meets h mode ac, ?_⟩, fun h => ?_⟩
  · obtain ⟨rs, hrun⟩ := wlconfSetWme_complete phytype gmode pre nv h
    exact ⟨_, rs, hrun, (wlconfSetWme_sound hrun).imp fun _ _ hright => hright.2⟩
  · obtain ⟨fuel, rs, hrun, hwords⟩ := h
    have hboth :=
        List.Forall₂.mp (fun s r (hpiece : Good s ∧ Right pieceAt s r) (hword : Right wordAt s r) =>
      hpiece.2.fields.symm.trans hword.fields) (wlconfSetWme_sound hrun) hwords
    have hsame :=
      forall_of_strings (P := fun s => (List.range localsCount).map (pieceAt ' ' s.chars) =
      (List.range localsCount).map (wordAt ' ' s.chars)) hboth mode ac
    refine (piece_eq_word_iff ' ' (value mode ac).chars localsCount).mp fun i hi => ?_
    exact List.map_inj_left.mp hsame i (List.mem_range.mpr hi)
  · obtain ⟨rs, hrun⟩ := wlconfSetWme_complete phytype gmode pre nv
      fun mode ac => (h mode ac).1
    have hblanks : ∀ s ∈ strings value, SingleBlanks s := by
      intro s hs
      obtain ⟨mode, ac, rfl⟩ := mem_strings hs
      exact (h mode ac).2
    have hboth := (List.forall₂_and_left (strings value) rs).mpr ⟨hblanks, wlconfSetWme_sound hrun⟩
    exact ⟨_, rs, hrun, hboth.imp fun _ _ hright => hright.2.2.words hright.1⟩

/-- A window of -2, and a value of 100 characters. -/
theorem wme_not_set :
    (¬Meets pieceAt 4 ⟨"1".toList, by decide⟩ "wl0_".toList (fun _ => nul) fun _ _ =>
      ⟨"-2 1023 3 0 0 off off".toList, by decide⟩) ∧
      ¬Meets pieceAt 4 ⟨"1".toList, by decide⟩ "wl0_".toList (fun _ => nul) fun _ _ =>
        ⟨"15 1023 3 0 0 off off".toList ++ List.replicate 79 ' ', by decide⟩ := by
  constructor
  · intro h
    have hcw := (good_of_meets h .ap .be).cwmin
    revert hcw
    decide +kernel
  · intro h
    have hfits := (good_of_meets h .ap .be).fits
    revert hfits
    decide +kernel

end BroadcomWl.Wlconf.Wme
