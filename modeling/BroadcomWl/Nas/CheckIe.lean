import BroadcomWl.Nas.ParseIe

/-!
# What `wpa_check_ie` reads and decides

A supplicant checks the element of an authenticator. `wpa_check_ie` takes the ciphers of the element
out of the configured ones and the modes out of the configured ones, and returns what is left: zero
if the authenticator supports all that is configured.

**Where it reads.** The AKM list is sought behind as many pairwise suites as the number says, and
the capabilities behind one AKM suite. `CheckFits` says when both are in the element.

**What it decides.** `check_ie` puts this together with the fields of the element: inside, the
result is zero if and only if the suites of the element cover the configuration, and with one AKM
suite the capabilities are those of the element. -/

namespace BroadcomWl.Nas.Element

open BroadcomWl.Lib (Reader)
open BroadcomWl.Lib.Reader

/-! ## Masks -/

/-- `x &= ~b` in 32 bits. -/
def clear (x b : Nat) : Nat := x &&& (0xffffffff ^^^ b)

theorem testBit_clear {x : Nat} (h : x < 2 ^ 32) (b i : Nat) :
    (clear x b).testBit i = (x.testBit i && !b.testBit i) := by
  have hall : (0xffffffff : Nat) = 2 ^ 32 - 1 := rfl
  rw [clear, Nat.testBit_and, Nat.testBit_xor, hall, Nat.testBit_two_pow_sub_one]
  by_cases hi : i < 32
  · simp [hi]
  · have hbit : x.testBit i = false :=
      Nat.testBit_lt_two_pow (h.trans_le (Nat.pow_le_pow_right (by omega) (by omega)))
    simp [hbit]

theorem clear_lt {x : Nat} (h : x < 2 ^ 32) (b : Nat) : clear x b < 2 ^ 32 :=
  Nat.lt_of_le_of_lt Nat.and_le_left h

theorem clear_clear {x : Nat} (h : x < 2 ^ 32) (a b : Nat) :
    clear (clear x a) b = clear x (a ||| b) := by
  apply Nat.eq_of_testBit_eq
  intro i
  rw [testBit_clear (clear_lt h a), testBit_clear h, testBit_clear h, Nat.testBit_or,
    Bool.and_assoc, Bool.not_or]

theorem clear_zero {x : Nat} (h : x < 2 ^ 32) : clear x 0 = x := and_allBits h

/-- All bits of a mask are among others. -/
def Covered (x b : Nat) : Prop := x &&& b = x

theorem clear_eq_zero_iff {x : Nat} (h : x < 2 ^ 32) (b : Nat) : clear x b = 0 ↔ Covered x b := by
  constructor
  · intro hzero
    apply Nat.eq_of_testBit_eq
    intro i
    have hbit := testBit_clear h b i
    rw [hzero, Nat.zero_testBit] at hbit
    rw [Nat.testBit_and]
    cases hx : x.testBit i with
    | false => rfl
    | true =>
        rw [hx, Bool.true_and] at hbit
        rw [Bool.true_and]
        simpa using hbit
  · intro hcovered
    apply Nat.eq_of_testBit_eq
    intro i
    have hbit := congrArg (Nat.testBit · i) hcovered
    simp only [Nat.testBit_and] at hbit
    rw [testBit_clear h, Nat.zero_testBit, ← hbit]
    cases x.testBit i <;> cases b.testBit i <;> rfl

/-! ## Where it reads -/

variable {m : Mem} {n : Nat}

theorem inside_checkSuites (oui : Bytes) (bits : Nat → Nat) {count off : Nat} {len : Int}
    (mask : Nat) (h : (off : Int) + len = n) :
    Inside m n (checkSuites oui bits count off len mask) := by
  induction count generalizing off len mask with
  | zero => exact inside_pure _
  | succ count ih =>
      simp only [checkSuites, inside_ite, inside_bind, inside_suiteType, inside_pure,
        implies_true, true_and]
      intro hlen
      exact ⟨⟨by omega, fun _ => by omega⟩, ih _ (by omega)⟩

/-- **What the loop over a list leaves**: the mask without the suites that are listed, and the
length without theirs. -/
theorem run_checkSuites_eq (oui : Bytes) (bits : Nat → Nat) {count off : Nat} {len : Int}
    {mask : Nat} (hmask : mask < 2 ^ 32) (h : (off : Int) + len = n) :
    run m (checkSuites oui bits count off len mask) =
      (clear mask (suitesMask m oui bits (listed n off 4 count)),
        len - 4 * (listed n off 4 count).length) := by
  induction count generalizing off len mask with
  | zero =>
      have hnone : listed n off 4 0 = [] := rfl
      rw [hnone, suitesMask_nil, clear_zero hmask]
      simp [checkSuites]
  | succ count ih =>
      simp only [checkSuites, run_ite, run_bind, run_suiteType, run_pure]
      by_cases hlen : len < 4
      · rw [if_pos hlen, listed_of_lt (by omega), suitesMask_nil, clear_zero hmask]
        simp
      · have hhere : off + 4 ≤ n := by omega
        rw [if_neg hlen, ← clear, ih (clear_lt hmask _) (by omega), listed_succ, if_pos hhere,
          suitesMask_append, suitesMask_one, clear_clear hmask, List.length_append,
          List.length_singleton]
        refine Prod.ext rfl ?_
        simp only
        push_cast
        omega

/-! ### The conditions

`s` is where the suites begin, and `left` how many octets there are from there on. -/

/-- **Which elements are read inside.** There is no part of a group suite; a pairwise list that is
cut off leaves less than two octets of a suite; and behind the number of AKM suites there are no
octets to speak of, or one suite that is counted, or the octets that are taken for
the capabilities. -/
structure CheckFits (m : Mem) (s left : Nat) : Prop where
  group : left < 2 ∨ 4 ≤ left
  pairwise : 6 ≤ left → left - 6 < 4 * m.le16 (s + 4) → (left - 6) % 4 < 2
  akms : 8 + 4 * m.le16 (s + 4) ≤ left →
    left < 10 + 4 * m.le16 (s + 4) ∨ 14 + 4 * m.le16 (s + 4) ≤ left ∨
      12 + 4 * m.le16 (s + 4) ≤ left ∧ m.le16 (s + 6 + 4 * m.le16 (s + 4)) ≠ 0

theorem listed_length {off count : Nat} (h : off ≤ n) :
    (listed n off 4 count).length = min count ((n - off) / 4) := by
  induction count generalizing off with
  | zero => simp [listed]
  | succ count ih =>
      by_cases hhere : off + 4 ≤ n
      · rw [listed_succ, if_pos hhere, List.length_append, List.length_singleton, ih hhere]
        omega
      · rw [listed_of_lt (by omega)]
        simp only [List.length_nil]
        omega

theorem inside_checkMgmt (h : IeHeader) {wsec mode mgmt : Nat} {len : Int} (hmode : mode < 2 ^ 32)
    (hend : 2 ≤ len → (mgmt : Int) + len = n) :
    Inside m n (checkMgmt h wsec mode mgmt len) ↔
      (2 ≤ len → len < 4 ∨ 8 ≤ len ∨ 6 ≤ len ∧ m.le16 mgmt ≠ 0) := by
  have hcap (wsec mode : Nat) (len' : Int) :
      Inside m n (checkCap wsec mode mgmt len') ↔ (2 ≤ len' → mgmt + 8 ≤ n) := by
    simp only [checkCap, inside_ite, inside_bind, inside_octet, inside_pure, and_true, implies_true]
    exact forall_congr' fun _ => by omega
  simp only [checkMgmt, inside_ite, inside_bind, inside_le16, run_le16_eq, hcap]
  by_cases hlen : 2 ≤ len
  · have hoff := hend hlen
    have hloop : ((mgmt + 2 : Nat) : Int) + (len - 2) = n := by omega
    rw [run_checkSuites_eq h.oui _ hmode hloop, listed_length (show mgmt + 2 ≤ n by omega)]
    simp only [hlen, inside_checkSuites h.oui _ mode hloop, true_and, not_true, false_implies,
      and_true, true_implies]
    generalize m.le16 mgmt = count
    omega
  · simp only [hlen, false_implies, not_false_iff, true_implies, true_and]

theorem mgmt_of_inside {h : IeHeader} {wsec mode mgmt : Nat} {len : Int}
    (hin : Inside m n (checkMgmt h wsec mode mgmt len)) : 2 ≤ len → mgmt + 2 ≤ n := by
  simp only [checkMgmt, inside_ite, inside_bind, inside_le16] at hin
  exact fun hlen => (hin.1 hlen).1

theorem inside_checkUcast (h : IeHeader) {wsec mode off : Nat} {len : Int} (hwsec : wsec < 2 ^ 32)
    (hmode : mode < 2 ^ 32) (hend : 2 ≤ len → (off : Int) + len = n) :
    Inside m n (checkUcast h wsec mode off len) ↔
      (2 ≤ len → (len - 2 < 4 * m.le16 off → (len - 2) % 4 < 2) ∧
        (4 + 4 * m.le16 off ≤ len → len < 6 + 4 * m.le16 off ∨ 10 + 4 * m.le16 off ≤ len ∨
          8 + 4 * m.le16 off ≤ len ∧ m.le16 (off + 2 + 4 * m.le16 off) ≠ 0)) := by
  simp only [checkUcast, inside_ite, inside_bind, inside_le16, run_le16_eq]
  by_cases hlen : 2 ≤ len
  · have hoff := hend hlen
    have hloop : ((off + 2 : Nat) : Int) + (len - 2) = n := by omega
    rw [run_checkSuites_eq h.oui _ hwsec hloop, listed_length (show off + 2 ≤ n by omega)]
    simp only [hlen, inside_checkSuites h.oui _ wsec hloop, true_and, not_true, false_implies,
      and_true, true_implies]
    generalize hcount : m.le16 off = count
    by_cases hwhole : 4 * (count : Int) ≤ len - 2
    · have hmin : min count ((n - (off + 2)) / 4) = count := by omega
      rw [hmin, inside_checkMgmt h hmode (fun _ => by omega)]
      generalize m.le16 (off + 2 + 4 * count) = count'
      omega
    · have hmin : min count ((n - (off + 2)) / 4) = (n - (off + 2)) / 4 := by omega
      rw [hmin]
      by_cases hrest : (len - 2) % 4 < 2
      · rw [inside_checkMgmt h hmode (fun hlen' => by omega)]
        omega
      · refine iff_of_false (fun hin => ?_) (fun hcond => by have hrest' := hcond.1; omega)
        have hcount' := mgmt_of_inside hin.2
        omega
  · rw [inside_checkMgmt h hmode (fun hlen' => absurd hlen' hlen)]
    simp only [hlen, false_implies, not_false_iff, true_implies, true_and]

theorem inside_checkMcast (h : IeHeader) {wsec mode left : Nat} (hwsec : wsec < 2 ^ 32)
    (hmode : mode < 2 ^ 32) :
    Inside m (h.suites + left) (checkMcast h wsec mode left) ↔ CheckFits m h.suites left := by
  simp only [checkMcast, inside_ite, inside_bind, inside_suiteType, run_suiteType]
  have hcond : CheckFits m h.suites left ↔ (left < 2 ∨ 4 ≤ left) ∧ _ ∧ _ :=
    ⟨fun hfits => ⟨hfits.group, hfits.pairwise, hfits.akms⟩, fun hfits =>
      ⟨hfits.1, hfits.2.1, hfits.2.2⟩⟩
  rw [hcond]
  by_cases hgroup : 4 ≤ left
  · have hint : (4 : Int) ≤ left := by omega
    have hfits : SuiteFits m h.oui (h.suites + left) h.suites := ⟨by omega, fun _ => by omega⟩
    have hucast : Inside m (h.suites + left) (checkUcast h
        (wsec &&& (0xffffffff ^^^ suiteBits wpaCipher2wsec (suiteAt m h.oui h.suites))) mode
          (h.suites + 4)
        ((left : Int) - 4)) ↔ _ := inside_checkUcast h (clear_lt hwsec _) hmode (by omega)
    have hplace : h.suites + 4 + 2 = h.suites + 6 := rfl
    rw [hplace] at hucast
    simp only [hint, not_true, false_implies, and_true, true_implies, hfits, true_and, hucast]
    generalize m.le16 (h.suites + 4) = count
    generalize m.le16 (h.suites + 6 + 4 * count) = count'
    omega
  · have hint : ¬(4 : Int) ≤ left := by omega
    simp only [hint, not_false_iff, false_implies, true_and, true_implies]
    by_cases hcount : 2 ≤ left
    · refine iff_of_false (fun hin => ?_) (fun hfits => by have hleft := hfits.1; omega)
      have hint' : (2 : Int) ≤ left := by omega
      have hout : ¬h.suites + 4 + 2 ≤ h.suites + left := by omega
      simp only [checkUcast, inside_ite, inside_bind, inside_le16, hint', true_implies, hout,
        false_and] at hin
    · rw [inside_checkUcast h hwsec hmode (fun hlen => by omega)]
      omega

/-- **Where the check reads.** -/
theorem inside_wpaCheckIe_iff (ieLen : Int) {wsec mode : Nat} (hwsec : wsec < 2 ^ 32)
    (hmode : mode < 2 ^ 32) :
    Inside m ieLen.toNat (wpaCheckIe ieLen wsec mode) ↔
      ∀ h, Nas.wpaIeHeader m ieLen.toNat = some h →
      CheckFits m h.suites (ieLen.toNat - h.suites) := by
  rw [wpaCheckIe, inside_bind, run_wpaIeHeader]
  cases hh : Nas.wpaIeHeader m ieLen.toNat with
  | none => simp [inside_wpaIeHeader]
  | some h =>
      obtain ⟨hle, hpos⟩ := wpaIeHeader_suites_le hh
      have hmcast : Inside m (h.suites + (ieLen.toNat - h.suites))
          (checkMcast h wsec mode ((ieLen.toNat - h.suites : Nat) : Int)) ↔ _ :=
            inside_checkMcast h hwsec hmode
      have hsum : h.suites + (ieLen.toNat - h.suites) = ieLen.toNat := by omega
      have hleft : ((ieLen.toNat - h.suites : Nat) : Int) = ieLen - h.suites := by omega
      rw [hsum, hleft] at hmcast
      simp only [inside_wpaIeHeader, true_and, hmcast, Option.some.injEq, forall_eq']

/-! ## What it decides -/

/-- There is no AKM list, or it is one of a single suite. -/
def OneAkm (m : Mem) (n s : Nat) : Prop :=
  s + 6 ≤ n → s + 6 + 4 * m.le16 (s + 4) + 2 ≤ n → m.le16 (s + 6 + 4 * m.le16 (s + 4)) = 1

/-- The ciphers of an element: those of the multicast suite and of the pairwise suites listed. -/
def ieCiphers (m : Mem) (h : IeHeader) (n : Nat) : Nat :=
  suitesMask m h.oui wpaCipher2wsec ((ieFields m n h.suites).group ++
    (ieFields m n h.suites).pairwise)

/-- The modes of an element: those of the AKM suites listed. -/
def ieModes (m : Mem) (h : IeHeader) (n : Nat) : Nat :=
  suitesMask m h.oui (fun t => wpaAuth2mode (h.akm2auth t)) (ieFields m n h.suites).akms

/-- The ciphers and the modes that an element leaves of the configured ones, and the capabilities
where it has one AKM suite. -/
structure Checks (m : Mem) (h : IeHeader) (n wsec mode : Nat) (r : Nat × Option (UInt8 × UInt8)) :
    Prop where
  left : r.1 = (clear wsec (ieCiphers m h n) + clear mode (ieModes m h n)) % 2 ^ 32
  cap : OneAkm m n h.suites → r.2 = (ieFields m n h.suites).cap.map fun o => (m o, m (o + 1))

theorem checkCap_eq (wsec mode mgmt : Nat) (len : Int) :
    run m (checkCap wsec mode mgmt len) =
      some ((wsec + mode) % 2 ^ 32, if 2 ≤ len then some (m (mgmt + 6), m (mgmt + 7))
        else none) := by
  simp only [checkCap, run_ite, run_bind, run_octet, run_pure]
  split <;> rfl

/-- Behind the pairwise suites come the AKM suites, and behind one of them the capabilities. -/
theorem checkMgmt_checks (h : IeHeader) {wsec mode mgmt : Nat} {len : Int} (hmode : mode < 2 ^ 32)
    (hend : 2 ≤ len → (mgmt : Int) + len = n) (hin : Inside m n (checkMgmt h wsec mode mgmt len)) :
    ∃ cap, run m (checkMgmt h wsec mode mgmt len) =
        some ((wsec + clear mode (suitesMask m h.oui (fun t => wpaAuth2mode (h.akm2auth t))
          (if 2 ≤ len then listed n (mgmt + 2) 4 (m.le16 mgmt) else []))) % 2 ^ 32, cap) ∧
      ((2 ≤ len → m.le16 mgmt = 1) →
        cap = if 2 ≤ len ∧ mgmt + 8 ≤ n then some (m (mgmt + 6), m (mgmt + 7)) else none) := by
  rw [inside_checkMgmt h hmode hend] at hin
  simp only [checkMgmt, run_ite, run_bind, run_le16_eq, checkCap_eq]
  by_cases hlen : 2 ≤ len
  · have hoff := hend hlen
    have hloop : ((mgmt + 2 : Nat) : Int) + (len - 2) = n := by omega
    simp only [hlen, if_true, true_and, true_implies]
    rw [run_checkSuites_eq h.oui _ hmode hloop, listed_length (show mgmt + 2 ≤ n by omega)]
    refine ⟨_, rfl, fun hone => ?_⟩
    rw [hone] at hin ⊢
    have hcap : 2 ≤ len - 2 - 4 * ((min 1 ((n - (mgmt + 2)) / 4) : Nat) : Int) ↔ mgmt + 8 ≤ n := by
      have hfits := hin hlen
      omega
    simp only [hcap]
  · simp only [hlen, if_false, false_and, suitesMask_nil, clear_zero hmode]
    exact ⟨none, rfl, fun _ => rfl⟩

theorem pairwise_left (off : Nat) {len : Int} (hlen : 2 ≤ len) (hoff : (off : Int) + len = n)
    (hfits : len - 2 < 4 * m.le16 off → (len - 2) % 4 < 2) :
    let left := len - 2 - 4 * ((listed n (off + 2) 4 (m.le16 off)).length : Int)
    (2 ≤ left → ((off + 2 + 4 * m.le16 off : Nat) : Int) + left = n) ∧
      (2 ≤ left ↔ off + 2 + 4 * m.le16 off + 2 ≤ n) := by
  rw [listed_length (show off + 2 ≤ n by omega)]
  generalize m.le16 off = count at hfits ⊢
  by_cases hwhole : 4 * (count : Int) ≤ len - 2
  · have hmin : min count ((n - (off + 2)) / 4) = count := by omega
    rw [hmin]
    omega
  · have hmin : min count ((n - (off + 2)) / 4) = (n - (off + 2)) / 4 := by omega
    have hrest := hfits (by omega)
    rw [hmin]
    omega

/-- Behind an AKM list of one suite the capabilities are eight octets from the list. -/
theorem cap_one {mgmt : Nat} (hone : m.le16 mgmt = 1) :
    (if mgmt + 8 ≤ n then some (m (mgmt + 6), m (mgmt + 7)) else none) =
      Option.map (fun o => (m o, m (o + 1)))
        (if mgmt + 2 ≤ n ∧ mgmt + 2 + 4 * m.le16 mgmt + 2 ≤ n then some (mgmt + 2 + 4 * m.le16 mgmt)
          else none) := by
  have hroom : mgmt + 2 ≤ n ∧ mgmt + 2 + 4 * 1 + 2 ≤ n ↔ mgmt + 8 ≤ n := by omega
  rw [hone, if_congr hroom rfl rfl]
  split <;> rfl

/-- **What the check leaves**, where it stays inside. -/
theorem checkMcast_checks (h : IeHeader) {wsec mode left : Nat} (hwsec : wsec < 2 ^ 32)
    (hmode : mode < 2 ^ 32) (hfits : CheckFits m h.suites left) :
    ∃ r, run m (checkMcast h wsec mode left) = some r ∧
    Checks m h (h.suites + left) wsec mode r := by
  have hin := (inside_checkMcast h hwsec hmode).mpr hfits
  simp only [checkMcast, inside_ite, inside_bind] at hin
  simp only [checkMcast, run_ite, run_bind, run_suiteType]
  by_cases hgroup : 4 ≤ left
  · have hint : (4 : Int) ≤ left := by omega
    obtain ⟨-, hucast⟩ := hin.1 hint
    rw [if_pos hint, ← clear]
    rw [run_suiteType, ← clear] at hucast
    have hmask := clear_lt hwsec (suiteBits wpaCipher2wsec (suiteAt m h.oui h.suites))
    have hgroupMask : suitesMask m h.oui wpaCipher2wsec (listed (h.suites + left) h.suites 4 1) =
        suiteBits wpaCipher2wsec (suiteAt m h.oui h.suites) := by
      rw [listed_one, if_pos (by omega), suitesMask_one]
    simp only [checkUcast, inside_ite, inside_bind] at hucast
    simp only [checkUcast, run_ite, run_bind, run_le16_eq]
    by_cases hlen : 6 ≤ left
    · have hint' : (2 : Int) ≤ left - 4 := by omega
      have hloop : ((h.suites + 4 + 2 : Nat) : Int) + ((left : Int) - 4 - 2) =
          (h.suites + left : Nat) := by omega
      obtain ⟨-, -, hmgmt⟩ := hucast.1 hint'
      rw [run_le16_eq] at hmgmt
      rw [if_pos hint']
      rw [run_checkSuites_eq h.oui _ hmask hloop] at hmgmt ⊢
      obtain ⟨hplace, hroom⟩ :=
        pairwise_left (m := m) (n := h.suites + left) (h.suites + 4) hint' (by omega)
        (fun hshort => by
          have hrest := hfits.pairwise hlen (by omega)
          omega)
      obtain ⟨cap, hrun, hcap⟩ := checkMgmt_checks h hmode hplace hmgmt
      have hfields := ieFields_long (m := m) (s := h.suites) (n := h.suites + left) (by omega)
      refine ⟨_, hrun, ?_, fun hone => ?_⟩
      · rw [ieCiphers, ieModes, hfields, suitesMask_append, hgroupMask, ← clear_clear hwsec]
        simp only [hroom, Nat.add_assoc, Nat.reduceAdd]
      · rw [hfields, hcap fun hlen' => hone (by omega) (hroom.mp hlen')]
        simp only [hroom]
        by_cases hthere : h.suites + 6 + 4 * m.le16 (h.suites + 4) + 2 ≤ h.suites + left
        · rw [← cap_one (hone (by omega) hthere)]
          simp only [hthere, true_and]
        · simp only [hthere, false_and, if_false, Option.map_none]
    · have hint' : ¬(2 : Int) ≤ left - 4 := by omega
      have hno (hlen' : (2 : Int) ≤ left - 4) :
          ((h.suites + 4 + 2 : Nat) : Int) + (left - 4) = (h.suites + left : Nat) :=
        absurd hlen' hint'
      obtain ⟨cap, hrun, hcap⟩ := checkMgmt_checks h hmode hno (hucast.2 hint')
      have hfields := ieFields_short (m := m) (s := h.suites) (n := h.suites + left) (by omega)
      rw [if_neg hint']
      refine ⟨_, hrun, ?_, fun _ => ?_⟩
      · rw [ieCiphers, ieModes, hfields, List.append_nil, hgroupMask, if_neg hint']
      · rw [hfields, hcap fun hlen' => absurd hlen' hint']
        simp only [hint', false_and, if_false, Option.map_none]
  · have hint : ¬(4 : Int) ≤ left := by omega
    have hint' : ¬(2 : Int) ≤ left := by
      have hgroup' := hfits.group
      omega
    have hmcast := hin.2 hint
    have hfields := ieFields_short (m := m) (s := h.suites) (n := h.suites + left) (by omega)
    have hnoGroup : listed (h.suites + left) h.suites 4 1 = [] := by
      rw [listed_one, if_neg (by omega)]
    simp only [checkUcast, inside_ite, inside_bind] at hmcast
    simp only [checkUcast, run_ite]
    obtain ⟨cap, hrun, hcap⟩ :=
      checkMgmt_checks h hmode (fun hlen' => absurd hlen' hint') (hmcast.2 hint')
    rw [if_neg hint, if_neg hint']
    refine ⟨_, hrun, ?_, fun _ => ?_⟩
    · rw [ieCiphers, ieModes, hfields, hnoGroup, List.append_nil, suitesMask_nil, clear_zero hwsec,
        if_neg hint']
    · rw [hfields, hcap fun hlen' => absurd hlen' hint']
      simp only [hint', false_and, if_false, Option.map_none]

/-- The sum of two masks of 32 bits is zero in 32 bits if both are, or if it is just too large. -/
theorem sum_mod_eq_zero_iff {a b : Nat} (ha : a < 2 ^ 32) (hb : b < 2 ^ 32) :
    (a + b) % 2 ^ 32 = 0 ↔ a = 0 ∧ b = 0 ∨ a + b = 2 ^ 32 := by
  omega

/-- **When the check stays inside the element, and what it decides there.** It returns zero if and
only if the element has all the configured ciphers and modes (or if what is left of them sums up to
2^32). -/
theorem check_ie (m : Mem) (ieLen : Int) (wsec mode : UInt32) :
    (Inside m ieLen.toNat (wpaCheckIe ieLen wsec.toNat mode.toNat) ↔
      ∀ h, Nas.wpaIeHeader m ieLen.toNat = some h → CheckFits m h.suites (ieLen.toNat - h.suites)) ∧
    (Nas.wpaIeHeader m ieLen.toNat = none → run m (wpaCheckIe ieLen wsec.toNat mode.toNat) = none) ∧
    ∀ h, Nas.wpaIeHeader m ieLen.toNat = some h → CheckFits m h.suites (ieLen.toNat - h.suites) →
      ∃ r, run m (wpaCheckIe ieLen wsec.toNat mode.toNat) = some r ∧
        (r.1 = 0 ↔
          Covered wsec.toNat (ieCiphers m h ieLen.toNat) ∧
          Covered mode.toNat (ieModes m h ieLen.toNat) ∨
            clear wsec.toNat (ieCiphers m h ieLen.toNat) +
              clear mode.toNat (ieModes m h ieLen.toNat) = 2 ^ 32) ∧
        (OneAkm m ieLen.toNat h.suites →
          r.2 = (ieFields m ieLen.toNat h.suites).cap.map fun o => (m o, m (o + 1))) := by
  have hwsec : wsec.toNat < 2 ^ 32 := wsec.toNat_lt
  have hmode : mode.toNat < 2 ^ 32 := mode.toNat_lt
  refine ⟨inside_wpaCheckIe_iff ieLen hwsec hmode, fun hnone => ?_, fun h hh hfits => ?_⟩
  · rw [wpaCheckIe, run_bind, run_wpaIeHeader, hnone]
    rfl
  · obtain ⟨hle, hpos⟩ := wpaIeHeader_suites_le hh
    have hsum : h.suites + (ieLen.toNat - h.suites) = ieLen.toNat := by omega
    have hleft : ieLen - h.suites = ((ieLen.toNat - h.suites : Nat) : Int) := by omega
    obtain ⟨r, hrun, hchecks⟩ := checkMcast_checks h hwsec hmode hfits
    rw [hsum] at hchecks
    refine ⟨r, ?_, ?_, hchecks.cap⟩
    · rw [wpaCheckIe, run_bind, run_wpaIeHeader, hh]
      simp only [hleft, hrun]
    · rw [hchecks.left, sum_mod_eq_zero_iff (clear_lt hwsec _) (clear_lt hmode _),
        clear_eq_zero_iff hwsec,
        clear_eq_zero_iff hmode]

/-- An RSN element with TKIP as its multicast suite, AES as its pairwise suite, two AKM suites and
capabilities. -/
def mixedRsn : Mem :=
  Mem.ofBytes [0x30, 0x18, 0x01, 0x00, 0x00, 0x0f, 0xac, 0x02, 0x01, 0x00, 0x00, 0x0f, 0xac, 0x04,
    0x02, 0x00, 0x00, 0x0f, 0xac, 0x02, 0x00, 0x0f, 0xac, 0x01, 0x0c, 0x00]

/-- An authenticator whose multicast suite is TKIP is accepted by a supplicant with AES only; the
capabilities are the first octets of the second AKM suite. -/
theorem tkip_group_accepted : Inside mixedRsn 26 (wpaCheckIe 26 aesEnabled wpa2Psk) ∧
    run mixedRsn (wpaCheckIe 26 aesEnabled wpa2Psk) = some (0, some (0x00, 0x0f)) ∧
    suiteAt mixedRsn wpa2Oui 4 = some 2 ∧ wpaCipher2wsec 2 &&& aesEnabled = 0 ∧
    (ieFields mixedRsn 26 4).cap = some 24 ∧ (mixedRsn 24, mixedRsn 25) = (0x0c, 0x00) := by
  decide +kernel

end BroadcomWl.Nas.Element
