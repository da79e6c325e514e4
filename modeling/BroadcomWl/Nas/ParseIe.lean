import BroadcomWl.Nas.Element

/-!
# What `wpa_parse_ie` reads and reports

**The grammar.** Behind its header an element has a group suite, a list of pairwise suites, a list
of AKM suites, the capabilities and, in an RSN element, a list of PMKIDs. Each list is as long as
the number before it says, and the element may end after any field. `ieFields` finds the fields by
these numbers; what does not lie in the element is left out.

**The parser.** `wpa_parse_ie` accepts lists of one suite only, and takes the suites' length off
what remains without a look at what remains. `parse_ie_iff` says for which elements it stays inside;
where it does, it reports what the fields say (`parse_reports`). -/

namespace BroadcomWl.Nas.Element

open BroadcomWl.Lib (Reader)
open BroadcomWl.Lib.Reader

variable (m : Mem)

/-! ## The fields of an element -/

/-- The places of the items of a list that lie below `n`. -/
def listed (n off size count : Nat) : List Nat :=
  ((List.range count).map fun i => off + size * i).filter fun o => o + size ≤ n

/-- Where the fields of an element are; without a count before it a list is empty. -/
structure IeFields where
  group : List Nat
  pairwise : List Nat
  akms : List Nat
  cap : Option Nat
  pmkids : Option (List Nat)

/-- The fields of an element of `n` octets, from the offset `s` on. -/
def ieFields (n s : Nat) : IeFields :=
  let pairwise := if s + 6 ≤ n then listed n (s + 6) 4 (m.le16 (s + 4)) else []
  let mgmt := s + 6 + 4 * m.le16 (s + 4)
  let hasMgmt := s + 6 ≤ n ∧ mgmt + 2 ≤ n
  let akms := if hasMgmt then listed n (mgmt + 2) 4 (m.le16 mgmt) else []
  let cap := mgmt + 2 + 4 * m.le16 mgmt
  let pmkids :=
    if hasMgmt ∧ cap + 4 ≤ n then some (listed n (cap + 4) 16 (m.le16 (cap + 2))) else none
  ⟨listed n s 4 1, pairwise, akms, if hasMgmt ∧ cap + 2 ≤ n then some cap else none, pmkids⟩

/-- The bits of the suites of a list. -/
def suitesMask (oui : Bytes) (bits : Nat → Nat) (offs : List Nat) : Nat :=
  (offs.map fun o => suiteBits bits (suiteAt m oui o)).foldl (· ||| ·) 0

/-- The capabilities at a place, zero where there are none. -/
def capAt (cap : Option Nat) : UInt8 × UInt8 := (cap.map fun o => (m o, m (o + 1))).getD (0, 0)

/-- The verdict on the PMKIDs of an element. -/
def pmkidVerdict (sta : Option Bytes) (mode : Nat) (pmkids : Option (List Nat)) : Int :=
  match sta, pmkids with
  | some pmkid, some offs =>
    if m 0 = dot11MngRsnId ∧ mode = wpa2 then if offs.any fun o => m.slice o 16 == pmkid then 1
    else -1 else 0
  | _, _ => 0

/-- The ciphers, the mode, the capabilities and the verdict are those of the fields. -/
structure Reports (h : IeHeader) (n : Nat) (sta : Option Bytes) (p : ParsedIe) : Prop where
  wsec :
    p.wsec = suitesMask m h.oui wpaCipher2wsec ((ieFields m n h.suites).group ++
      (ieFields m n h.suites).pairwise)
  mode :
    p.mode = suitesMask m h.oui (fun t => wpaAuth2mode (h.akm2auth t)) (ieFields m n h.suites).akms
  cap : p.cap = capAt m (ieFields m n h.suites).cap
  pmkc : p.pmkc = pmkidVerdict m sta p.mode (ieFields m n h.suites).pmkids

/-! ## Where the parser reads -/

variable {m} {n : Nat}

/-- A suite is there as far as it is looked at. -/
def SuiteFits (m : Mem) (oui : Bytes) (n off : Nat) : Prop :=
  off + 3 ≤ n ∧ (m.slice off 3 = oui → off + 4 ≤ n)

theorem inside_suiteType (oui : Bytes) (off : Nat) :
    Inside m n (suiteType oui off) ↔ SuiteFits m oui n off := by
  simp only [suiteType, inside_bind, inside_octets, run_octets, slice_eq, inside_ite, inside_octet,
    inside_pure, SuiteFits, and_true, implies_true]
  exact and_congr (by omega) (forall_congr' fun _ => by omega)

theorem inside_wpaIeHeader (ieLen : Int) : Inside m ieLen.toNat (wpaIeHeader ieLen) := by
  simp only [wpaIeHeader, rsnHeader, wpaHeader, inside_ite, inside_bind, inside_octet,
    inside_octets, inside_le16, inside_pure, run_octet, and_true, implies_true, true_and]
  intro hlong
  refine ⟨by omega, fun hlength =>
    ⟨by omega, fun _ => ⟨by omega, fun htag => by omega⟩, fun _ _ => ?_⟩⟩
  exact ⟨by omega, fun htag => ⟨by omega, fun _ => by omega⟩⟩

theorem inside_pmkidListed (pmkid : Bytes) {off count : Nat} {len : Int}
    (h : (off : Int) + len ≤ n) :
    Inside m n (pmkidListed pmkid off count len) := by
  induction count generalizing off len with
  | zero => exact inside_pure false
  | succ count ih =>
      simp only [pmkidListed, inside_ite, inside_bind, inside_octets, inside_pure]
      refine ⟨fun _ => trivial, fun hlen => ⟨by omega, fun _ => trivial, fun _ => ih ?_⟩⟩
      omega

theorem inside_parsePmkids (sta : Option Bytes) (mode : Nat) {off : Nat} {len : Int} (hn : 0 < n)
    (h : 2 ≤ len → (off : Int) + len = n) : Inside m n (parsePmkids sta mode off len) := by
  cases sta with
  | none => exact inside_pure 0
  | some pmkid =>
      simp only [parsePmkids, inside_bind, inside_octet, inside_ite, inside_le16,
        inside_pure, and_true]
      refine ⟨hn, fun hcond => ?_, fun _ => trivial⟩
      have hend := h hcond.2.1
      exact ⟨by omega, inside_pmkidListed pmkid (by omega)⟩

theorem inside_parseCap (sta : Option Bytes) (wsec mode : Nat) (akm : Bool) {off : Nat} {len : Int}
    (hn : 0 < n) (h : 2 ≤ len → (off : Int) + len = n) :
    Inside m n (parseCap sta wsec mode akm off len) := by
  simp only [parseCap, inside_ite, inside_bind, inside_octet, inside_pure, and_true]
  refine ⟨fun hlen => ?_, fun hlen => inside_parsePmkids sta mode hn fun hlen' => absurd hlen' hlen⟩
  have hend := h hlen
  exact ⟨by omega, by omega, inside_parsePmkids sta mode hn fun _ => by omega⟩

theorem inside_parseMgmt (h : IeHeader) (sta : Option Bytes) (wsec : Nat) {off : Nat} {len : Int}
    (hn : 0 < n) (hend : 2 ≤ len → (off : Int) + len = n) :
    Inside m n (parseMgmt h sta wsec off len) ↔
    (2 ≤ len → m.le16 off = 1 → SuiteFits m h.oui n (off + 2)) := by
  simp only [parseMgmt, inside_ite, inside_bind, inside_le16, run_le16_eq, inside_suiteType,
    inside_pure, implies_true, true_and, not_not]
  constructor
  · intro hin hlen hone
    exact ((hin.1 hlen).2 hone).1
  · intro hfits
    refine ⟨fun hlen => ⟨by omega, fun hone => ⟨hfits hlen hone, ?_⟩⟩, fun hlen => ?_⟩
    · exact inside_parseCap sta wsec _ _ hn fun _ => by omega
    · exact inside_parseCap sta wsec 0 false hn fun hlen' => absurd hlen' hlen

theorem inside_parseUcast (h : IeHeader) (sta : Option Bytes) (wsec : Nat) {off : Nat} {len : Int}
    (hn : 0 < n) (hend : (off : Int) + len = n) :
    Inside m n (parseUcast h sta wsec off len) ↔
      (2 ≤ len → m.le16 off = 1 → SuiteFits m h.oui n (off + 2) ∧
        (8 ≤ len → m.le16 (off + 6) = 1 → SuiteFits m h.oui n (off + 8))) := by
  simp only [parseUcast, inside_ite, inside_bind, inside_le16, run_le16_eq, inside_suiteType,
    inside_pure, implies_true, true_and, not_not]
  constructor
  · intro hin hlen hone
    obtain ⟨hfits, hmgmt⟩ := (hin.1 hlen).2 hone
    rw [inside_parseMgmt h sta _ hn (by omega)] at hmgmt
    exact ⟨hfits, fun hlen' => hmgmt (by omega)⟩
  · intro hfits
    refine ⟨fun hlen => ⟨by omega, fun hone => ⟨(hfits hlen hone).1, ?_⟩⟩, fun hlen => ?_⟩
    · rw [inside_parseMgmt h sta _ hn (by omega)]
      exact fun hlen' => (hfits hlen hone).2 (by omega)
    · rw [inside_parseMgmt h sta _ hn (fun hlen' => absurd hlen' hlen)]
      exact fun hlen' => absurd hlen' hlen

/-- **Which elements the parser reads inside**, by the octets that are left behind the header: there
is no part of a group suite; a pairwise list of one suite has its OUI, and its number if the OUI is
the element's; and so has an AKM list of one suite behind it. -/
def ParseFits (m : Mem) (h : IeHeader) (left : Nat) : Prop :=
  (left < 2 ∨ 4 ≤ left) ∧
    (6 ≤ left → m.le16 (h.suites + 4) = 1 →
      (9 ≤ left ∧ (left = 9 → m.slice (h.suites + 6) 3 ≠ h.oui)) ∧
        (12 ≤ left → m.le16 (h.suites + 10) = 1 →
          15 ≤ left ∧ (left = 15 → m.slice (h.suites + 12) 3 ≠ h.oui)))

theorem suiteFits_iff {oui : Bytes} {s k left : Nat} :
    SuiteFits m oui (s + left) (s + k) ↔
    k + 3 ≤ left ∧ (left = k + 3 → m.slice (s + k) 3 ≠ oui) := by
  unfold SuiteFits
  constructor
  · intro hfits
    exact ⟨by omega, fun hleft heq => by have hmore := hfits.2 heq; omega⟩
  · intro hcond
    refine ⟨by omega, fun heq => ?_⟩
    by_contra hshort
    exact hcond.2 (by omega) heq

theorem inside_parseMcast (h : IeHeader) (sta : Option Bytes) (left : Nat)
    (hn : 0 < h.suites + left) :
    Inside m (h.suites + left) (parseMcast h sta left) ↔ ParseFits m h left := by
  simp only [parseMcast, inside_ite, inside_bind, inside_suiteType]
  by_cases hgroup : 4 ≤ left
  · have hint : (4 : Int) ≤ left := by omega
    have hfits : SuiteFits m h.oui (h.suites + left) h.suites := ⟨by omega, fun _ => by omega⟩
    have hucast :
        Inside m (h.suites + left)
        (parseUcast h sta (suiteBits wpaCipher2wsec (run m (suiteType h.oui h.suites)))
        (h.suites + 4) ((left : Int) - 4)) ↔ _ := inside_parseUcast h sta _ hn (by omega)
    have hsix : (2 : Int) ≤ left - 4 ↔ 6 ≤ left := by omega
    have htwelve : (8 : Int) ≤ left - 4 ↔ 12 ≤ left := by omega
    simp only [Nat.add_assoc, Nat.reduceAdd, suiteFits_iff, hsix, htwelve] at hucast
    simp only [hint, not_true, false_implies, and_true, true_implies, hfits, true_and, hucast,
      ParseFits, hgroup, or_true]
  · have hint : ¬(4 : Int) ≤ left := by omega
    simp only [hint, not_false_iff, false_implies, true_and, true_implies]
    by_cases hcount : 2 ≤ left
    · have hint' : (2 : Int) ≤ left := by omega
      have hout : ¬h.suites + 4 + 2 ≤ h.suites + left := by omega
      refine iff_of_false (fun hin => ?_) (fun hfits => by have hleft := hfits.1; omega)
      simp only [parseUcast, inside_ite, inside_bind, inside_le16, hint', true_implies, hout,
        false_and] at hin
    · have hint' : ¬(2 : Int) ≤ left := by omega
      have hmgmt : Inside m (h.suites + left) (parseMgmt h sta 0 (h.suites + 4 + 6) left) ↔ _ :=
        inside_parseMgmt h sta 0 hn fun hlen => absurd hlen hint'
      refine iff_of_true ?_ ⟨by omega, fun hlen => by omega⟩
      simp only [parseUcast, inside_ite, hint', false_implies, not_false_iff, true_implies,
        true_and, hmgmt]

/-- **Where the parser reads.** -/
theorem inside_wpaParseIe_iff (ieLen : Int) (sta : Option Bytes) :
    Inside m ieLen.toNat (wpaParseIe ieLen sta) ↔
      ∀ h, Nas.wpaIeHeader m ieLen.toNat = some h → ParseFits m h (ieLen.toNat - h.suites) := by
  rw [wpaParseIe, inside_bind, run_wpaIeHeader]
  cases hh : Nas.wpaIeHeader m ieLen.toNat with
  | none => simp [inside_wpaIeHeader]
  | some h =>
      obtain ⟨hle, hpos⟩ := wpaIeHeader_suites_le hh
      have hmcast := inside_parseMcast (m := m) h sta (ieLen.toNat - h.suites) (by omega)
      have hsum : h.suites + (ieLen.toNat - h.suites) = ieLen.toNat := by omega
      have hleft : ((ieLen.toNat - h.suites : Nat) : Int) = ieLen - h.suites := by omega
      rw [hsum, hleft] at hmcast
      simp only [inside_wpaIeHeader, true_and, hmcast, Option.some.injEq, forall_eq']

/-! ## What the parser reports -/

theorem mem_listed {off size count o : Nat} :
    o ∈ listed n off size count ↔ ∃ i, i < count ∧ o = off + size * i ∧ o + size ≤ n := by
  simp only [listed, List.mem_filter, List.mem_map, List.mem_range, decide_eq_true_eq]
  constructor
  · intro h
    obtain ⟨⟨i, hi, rfl⟩, hfits⟩ := h
    exact ⟨i, hi, rfl, hfits⟩
  · intro h
    obtain ⟨i, hi, rfl, hfits⟩ := h
    exact ⟨⟨i, hi, rfl⟩, hfits⟩

theorem listed_of_lt {off size count : Nat} (h : n < off + size) :
    listed n off size count = [] := by
  rw [List.eq_nil_iff_forall_not_mem]
  intro o ho
  obtain ⟨i, -, rfl, hfits⟩ := mem_listed.mp ho
  have hle : off ≤ off + size * i := Nat.le_add_right off _
  omega

theorem listed_one (off size : Nat) :
    listed n off size 1 = if off + size ≤ n then [off] else [] := by
  simp only [listed, List.range_one, List.map_cons, List.map_nil, Nat.mul_zero, Nat.add_zero,
    List.filter_cons, List.filter_nil, decide_eq_true_eq]

theorem listed_succ (off size count : Nat) : listed n off size (count + 1) =
    (if off + size ≤ n then [off] else []) ++ listed n (off + size) size count := by
  have htail : (fun i => off + size * i) ∘ Nat.succ = fun i => off + size + size * i := by
    funext i
    simp only [Function.comp_apply, Nat.mul_succ]
    omega
  rw [listed, List.range_succ_eq_map, List.map_cons, List.map_map, htail, List.filter_cons]
  by_cases hfits : off + size ≤ n
  · simp [hfits, listed]
  · simp [hfits, listed]

theorem pmkidListed_iff {pmkid : Bytes} {off count : Nat} {len : Int} (h : (off : Int) + len = n) :
    Nas.pmkidListed m pmkid off count len = true ↔ ∃ o ∈ listed n off 16 count, m.slice o 16 =
      pmkid := by
  induction count generalizing off len with
  | zero => simp [Nas.pmkidListed, listed]
  | succ count ih =>
      have hnext : ((off + 16 : Nat) : Int) + (len - 16) = n := by omega
      rw [Nas.pmkidListed]
      by_cases hshort : len < 16
      · rw [if_pos hshort]
        rw [listed_of_lt (by omega)]
        simp
      · have hfits : off + 16 ≤ n := by omega
        rw [if_neg hshort, listed_succ, if_pos hfits]
        by_cases hhere : m.slice off 16 = pmkid
        · simp [hhere]
        · simp [hhere, ih hnext]

theorem suitesMask_nil (oui : Bytes) (bits : Nat → Nat) : suitesMask m oui bits [] = 0 := rfl

theorem suitesMask_one (oui : Bytes) (bits : Nat → Nat) (o : Nat) :
    suitesMask m oui bits [o] = suiteBits bits (suiteAt m oui o) := Nat.zero_or _

theorem foldl_lor (l : List Nat) (a : Nat) : l.foldl (· ||| ·) a = a ||| l.foldl (· ||| ·) 0 := by
  induction l generalizing a with
  | nil => exact (Nat.or_zero a).symm
  | cons b l ih =>
    rw [List.foldl_cons, List.foldl_cons, ih, ih (0 ||| b), Nat.zero_or, Nat.or_assoc]

theorem suitesMask_append (oui : Bytes) (bits : Nat → Nat) (offs offs' : List Nat) :
    suitesMask m oui bits (offs ++ offs') =
      suitesMask m oui bits offs ||| suitesMask m oui bits offs' := by
  rw [suitesMask, List.map_append, List.foldl_append, foldl_lor, suitesMask, suitesMask]

theorem suiteBits_of_fits {oui : Bytes} {off : Nat} (bits : Nat → Nat)
    (hfits : SuiteFits m oui n off) :
    suitesMask m oui bits (listed n off 4 1) = suiteBits bits (suiteAt m oui off) := by
  rw [listed_one]
  split
  · exact suitesMask_one oui bits off
  · rename_i hshort
    have hother : m.slice off 3 ≠ oui := fun heq => hshort (hfits.2 heq)
    rw [suitesMask_nil, suiteBits_suiteAt, if_neg hother]

theorem parsePmkids_reports (sta : Option Bytes) (mode : Nat) {off : Nat} {len : Int}
    (h : 2 ≤ len → (off : Int) + len = n) :
    run m (parsePmkids sta mode off len) =
      pmkidVerdict m sta mode (if off + 2 ≤ n ∧
        2 ≤ len then some (listed n (off + 2) 16 (m.le16 off)) else none) := by
  rw [run_parsePmkids]
  cases sta with
  | none => rfl
  | some pmkid =>
      by_cases hlen : 2 ≤ len
      · have hend := h hlen
        have hloop : ((off + 2 : Nat) : Int) + (len - 2) = n := by omega
        have hany : (listed n (off + 2) 16 (m.le16 off)).any (fun o => m.slice o 16 == pmkid) =
            Nas.pmkidListed m pmkid (off + 2) (m.le16 off) (len - 2) := by
          rw [Bool.eq_iff_iff, pmkidListed_iff hloop]
          simp
        have hfits : off + 2 ≤ n := by omega
        simp only [hlen, hfits, true_and, if_true, pmkidVerdict, hany, and_self]
      · simp only [hlen, false_and, and_false, if_false, pmkidVerdict]

theorem parseCap_reports {sta : Option Bytes} {wsec mode off : Nat} {akm : Bool} {len : Int}
    {p : ParsedIe} (h : 2 ≤ len → (off : Int) + len = n)
    (hp : run m (parseCap sta wsec mode akm off len) = some p) :
    p.wsec = wsec ∧ p.mode = mode ∧
      p.cap = capAt m (if 2 ≤ len ∧ off + 2 ≤ n then some off else none) ∧
      p.pmkc = pmkidVerdict m sta mode
        (if 2 ≤ len ∧ off + 4 ≤ n then some (listed n (off + 4) 16 (m.le16 (off + 2)))
          else none) := by
  simp only [parseCap, run_ite, run_bind, run_octet, run_pure] at hp
  by_cases hlen : 2 ≤ len
  · have hend := h hlen
    rw [if_pos hlen, Option.some.injEq, parsePmkids_reports (n := n) sta mode (by omega)] at hp
    subst hp
    have hthere : 2 ≤ len ∧ off + 2 ≤ n := by omega
    refine ⟨rfl, rfl, by rw [if_pos hthere]; rfl, ?_⟩
    have hcond : off + 2 + 2 ≤ n ∧ 2 ≤ len - 2 ↔ 2 ≤ len ∧ off + 4 ≤ n := by omega
    simp only [hcond]
  · rw [if_neg hlen, Option.some.injEq,
      parsePmkids_reports (n := n) sta mode (fun hlen' => absurd hlen' hlen)] at hp
    subst hp
    refine ⟨rfl, rfl, by simp only [hlen, false_and, if_false]; rfl, ?_⟩
    simp only [hlen, and_false, false_and]

theorem parseMgmt_reports {h : IeHeader} {sta : Option Bytes} {wsec off : Nat} {len : Int}
    {p : ParsedIe} (hend : 2 ≤ len → (off : Int) + len = n)
    (hfits : 2 ≤ len → m.le16 off = 1 → SuiteFits m h.oui n (off + 2))
    (hp : run m (parseMgmt h sta wsec off len) = some p) :
    p.wsec = wsec ∧
      p.mode = suitesMask m h.oui (fun t => wpaAuth2mode (h.akm2auth t))
        (if 2 ≤ len then listed n (off + 2) 4 (m.le16 off) else []) ∧
      p.cap = capAt m
        (if 2 ≤ len ∧ off + 2 + 4 * m.le16 off + 2 ≤ n then some (off + 2 + 4 * m.le16 off)
          else none) ∧
      p.pmkc = pmkidVerdict m sta p.mode
        (if 2 ≤ len ∧ off + 2 + 4 * m.le16 off + 4 ≤ n then
          some (listed n (off + 2 + 4 * m.le16 off + 4) 16 (m.le16 (off + 2 + 4 * m.le16 off + 2)))
            else none) := by
  simp only [parseMgmt, run_ite, run_bind, run_le16_eq, run_suiteType, run_pure] at hp
  by_cases hlen : 2 ≤ len
  · by_cases hone : m.le16 off = 1
    · have hsuite := hfits hlen hone
      have hoff := hend hlen
      rw [if_pos hlen, if_neg (not_not.mpr hone)] at hp
      obtain ⟨hwsec, hmode, hcap, hpmkc⟩ := parseCap_reports (n := n) (by omega) hp
      rw [← suiteBits_of_fits _ hsuite] at hmode
      have hcond : 2 ≤ len - 6 ∧ off + 6 + 4 ≤ n ↔ off + 6 + 4 ≤ n := by omega
      have hcapCond : 2 ≤ len - 6 ∧ off + 6 + 2 ≤ n ↔ off + 6 + 2 ≤ n := by omega
      rw [hone, if_pos hlen]
      refine ⟨hwsec, hmode, ?_, ?_⟩
      · rw [hcap]
        simp only [hcapCond, hlen, true_and, Nat.mul_one]
      · rw [hpmkc, ← suiteBits_of_fits _ hsuite, ← hmode]
        simp only [hcond, hlen, true_and, Nat.mul_one]
    · rw [if_pos hlen, if_pos hone] at hp
      cases hp
  · rw [if_neg hlen] at hp
    obtain ⟨hwsec, hmode, hcap, hpmkc⟩ :=
      parseCap_reports (n := n) (fun hlen' => absurd hlen' hlen) hp
    rw [if_neg hlen, suitesMask_nil]
    refine ⟨hwsec, hmode, ?_, ?_⟩
    · rw [hcap]
      simp only [hlen, false_and, if_false]
    · rw [hpmkc, hmode]
      simp only [hlen, false_and, if_false]

theorem ieFields_short {s : Nat} (h : ¬s + 6 ≤ n) :
    ieFields m n s = ⟨listed n s 4 1, [], [], none, none⟩ := by
  simp only [ieFields, h, false_and, if_false]

theorem ieFields_long {s : Nat} (h : s + 6 ≤ n) :
    ieFields m n s =
      let mgmt := s + 6 + 4 * m.le16 (s + 4)
      ⟨listed n s 4 1, listed n (s + 6) 4 (m.le16 (s + 4)),
        if mgmt + 2 ≤ n then listed n (mgmt + 2) 4 (m.le16 mgmt) else [],
        if mgmt + 2 ≤ n ∧ mgmt + 2 + 4 * m.le16 mgmt + 2 ≤ n then some (mgmt + 2 + 4 * m.le16 mgmt)
        else none,
        if mgmt + 2 ≤ n ∧ mgmt + 2 + 4 * m.le16 mgmt + 4 ≤ n then
          some (listed n (mgmt + 2 + 4 * m.le16 mgmt + 4) 16
              (m.le16 (mgmt + 2 + 4 * m.le16 mgmt + 2))) else none⟩ := by
  simp only [ieFields, h, true_and, if_true]

theorem ieFields_one {s : Nat} (h : s + 6 ≤ n) (hone : m.le16 (s + 4) = 1) :
    ieFields m n s =
      ⟨listed n s 4 1, listed n (s + 6) 4 1,
        if s + 12 ≤ n then listed n (s + 12) 4 (m.le16 (s + 10)) else [],
        if s + 12 ≤ n ∧ s + 12 + 4 * m.le16 (s + 10) + 2 ≤
          n then some (s + 12 + 4 * m.le16 (s + 10)) else none,
        if s + 12 ≤ n ∧ s + 12 + 4 * m.le16 (s + 10) + 4 ≤ n then
          some (listed n (s + 12 + 4 * m.le16 (s + 10) + 4) 16
            (m.le16 (s + 12 + 4 * m.le16 (s + 10) + 2))) else none⟩ := by
  simp only [ieFields, h, true_and, if_true, hone, Nat.mul_one]

/-- **What the parser reports**, where it stays inside. -/
theorem parseMcast_reports {h : IeHeader} {sta : Option Bytes} {left : Nat} {p : ParsedIe}
    (hfits : ParseFits m h left) (hp : run m (parseMcast h sta left) = some p) :
    Reports m h (h.suites + left) sta p := by
  simp only [parseMcast, parseUcast, run_ite, run_bind, run_le16_eq, run_suiteType, run_pure] at hp
  by_cases hgroup : 4 ≤ left
  · have hgroupFits : SuiteFits m h.oui (h.suites + left) h.suites := ⟨by omega, fun _ => by omega⟩
    rw [if_pos (show (4 : Int) ≤ left by omega), ← suiteBits_of_fits _ hgroupFits] at hp
    by_cases hucast : 6 ≤ left
    · rw [if_pos (show (2 : Int) ≤ left - 4 by omega)] at hp
      by_cases hone : m.le16 (h.suites + 4) = 1
      · obtain ⟨hsuite, hmgmt⟩ := hfits.2 hucast hone
        have hucastFits := suiteFits_iff.mpr hsuite
        rw [if_neg (not_not.mpr hone), ← suiteBits_of_fits _ hucastFits] at hp
        have hmgmtFits (hlen : (2 : Int) ≤ left - 4 - 6) (hone' : m.le16 (h.suites + 10) = 1) :
            SuiteFits m h.oui (h.suites + left) (h.suites + 12) :=
              suiteFits_iff.mpr (hmgmt (by omega) hone')
        obtain ⟨hwsec, hmode, hcap, hpmkc⟩ :=
          parseMgmt_reports (n := h.suites + left) (fun _ => by omega) hmgmtFits hp
        have hcond : (2 : Int) ≤ left - 4 - 6 ↔ h.suites + 12 ≤ h.suites + left := by omega
        simp only [hcond] at hmode hcap hpmkc
        have hfields := ieFields_one (m := m) (s := h.suites) (n := h.suites + left) (by omega) hone
        refine ⟨?_, ?_, ?_, ?_⟩
        · rw [hwsec, hfields, suitesMask_append]
        · rw [hmode, hfields]
        · rw [hcap, hfields]
        · rw [hpmkc, hfields]
      · rw [if_pos hone] at hp
        cases hp
    · have hlen : ¬(2 : Int) ≤ left - 4 := by omega
      rw [if_neg hlen] at hp
      obtain ⟨hwsec, hmode, hcap, hpmkc⟩ := parseMgmt_reports (n := h.suites + left)
        (fun hlen' => absurd hlen' hlen) (fun hlen' => absurd hlen' hlen) hp
      have hfields := ieFields_short (m := m) (s := h.suites) (n := h.suites + left) (by omega)
      refine ⟨?_, ?_, ?_, ?_⟩
      · rw [hwsec, hfields, List.append_nil]
      · rw [hmode, hfields, if_neg hlen]
      · rw [hcap, hfields, if_neg (fun hcond => hlen hcond.1)]
      · rw [hpmkc, hfields, if_neg (fun hcond => hlen hcond.1)]
  · have hnone : left < 2 := by
      have hleft := hfits.1
      omega
    have hlen : ¬(2 : Int) ≤ left := by omega
    rw [if_neg (show ¬(4 : Int) ≤ left by omega), if_neg hlen] at hp
    obtain ⟨hwsec, hmode, hcap, hpmkc⟩ := parseMgmt_reports (n := h.suites + left)
      (fun hlen' => absurd hlen' hlen) (fun hlen' => absurd hlen' hlen) hp
    have hfields := ieFields_short (m := m) (s := h.suites) (n := h.suites + left) (by omega)
    have hnoGroup : listed (h.suites + left) h.suites 4 1 = [] := by
      rw [listed_one, if_neg (by omega)]
    refine ⟨?_, ?_, ?_, ?_⟩
    · rw [hwsec, hfields, hnoGroup]
      rfl
    · rw [hmode, hfields, if_neg hlen]
    · rw [hcap, hfields, if_neg (fun hcond => hlen hcond.1)]
    · rw [hpmkc, hfields, if_neg (fun hcond => hlen hcond.1)]

/-! ### What is accepted -/

/-- The pairwise list and the AKM list have one suite each, as far as there are octets for their
numbers. -/
def OneSuite (m : Mem) (h : IeHeader) (left : Nat) : Prop :=
  (6 ≤ left → m.le16 (h.suites + 4) = 1) ∧ (12 ≤ left → m.le16 (h.suites + 10) = 1)

theorem parseCap_isSome (sta : Option Bytes) (wsec mode : Nat) (akm : Bool) (off : Nat)
    (len : Int) :
    (run m (parseCap sta wsec mode akm off len)).isSome = true := by
  simp only [parseCap, run_ite, run_bind, run_pure]
  split <;> rfl

theorem parseMgmt_isSome (h : IeHeader) (sta : Option Bytes) (wsec off : Nat) (len : Int) :
    (run m (parseMgmt h sta wsec off len)).isSome = true ↔ (2 ≤ len → m.le16 off = 1) := by
  simp only [parseMgmt, run_ite, run_bind, run_le16_eq, run_pure]
  by_cases hlen : 2 ≤ len
  · by_cases hone : m.le16 off = 1
    · simp [hlen, hone, parseCap_isSome]
    · simp [hlen, hone]
  · simp [hlen, parseCap_isSome]

/-- **The parser accepts elements with one suite each.** -/
theorem parseMcast_isSome {h : IeHeader} (sta : Option Bytes) {left : Nat}
    (hgroup : left < 2 ∨ 4 ≤ left) :
    (run m (parseMcast h sta left)).isSome = true ↔ OneSuite m h left := by
  simp only [parseMcast, parseUcast, run_ite, run_bind, run_le16_eq, run_pure]
  by_cases hfour : 4 ≤ left
  · have hint : (4 : Int) ≤ left := by omega
    rw [if_pos hint]
    by_cases hsix : 6 ≤ left
    · have hint' : (2 : Int) ≤ left - 4 := by omega
      rw [if_pos hint']
      by_cases hone : m.le16 (h.suites + 4) = 1
      · have htwelve : (2 : Int) ≤ left - 4 - 6 ↔ 12 ≤ left := by omega
        rw [if_neg (not_not.mpr hone), parseMgmt_isSome, htwelve]
        exact ⟨fun hmgmt => ⟨fun _ => hone, hmgmt⟩, fun hboth => hboth.2⟩
      · rw [if_pos hone]
        exact iff_of_false Bool.false_ne_true fun hboth => hone (hboth.1 hsix)
    · have hint' : ¬(2 : Int) ≤ left - 4 := by omega
      rw [if_neg hint', parseMgmt_isSome]
      exact iff_of_true (fun hlen => absurd hlen hint')
        ⟨fun hlen => absurd hlen hsix, fun hlen => by omega⟩
  · have hint : ¬(4 : Int) ≤ left := by omega
    have hint' : ¬(2 : Int) ≤ left := by omega
    rw [if_neg hint, if_neg hint', parseMgmt_isSome]
    exact iff_of_true (fun hlen => absurd hlen hint') ⟨fun hlen => by omega, fun hlen => by omega⟩

/-- **When the parser stays inside the element and reports its fields.** -/
theorem parse_ie_iff (m : Mem) (ieLen : Int) (sta : Option Bytes) :
    (Inside m ieLen.toNat (wpaParseIe ieLen sta) ∧ ∀ p, run m (wpaParseIe ieLen sta) = some p →
      ∃ h, Nas.wpaIeHeader m ieLen.toNat = some h ∧ Reports m h ieLen.toNat sta p) ↔
      ∀ h, Nas.wpaIeHeader m ieLen.toNat = some h → ParseFits m h (ieLen.toNat - h.suites) := by
  rw [inside_wpaParseIe_iff]
  refine and_iff_left_of_imp fun hfits p hp => ?_
  rw [wpaParseIe, run_bind, run_wpaIeHeader] at hp
  cases hh : Nas.wpaIeHeader m ieLen.toNat with
  | none =>
      rw [hh] at hp
      cases hp
  | some h =>
      obtain ⟨hle, hpos⟩ := wpaIeHeader_suites_le hh
      have hsum : h.suites + (ieLen.toNat - h.suites) = ieLen.toNat := by omega
      have hleft : ieLen - h.suites = ((ieLen.toNat - h.suites : Nat) : Int) := by omega
      rw [hh] at hp
      simp only [hleft] at hp
      have hreports := parseMcast_reports (hfits h hh) hp
      rw [hsum] at hreports
      exact ⟨h, rfl, hreports⟩

/-- An RSN element of twelve octets that ends in the middle of its pairwise suite, and the octets
behind it. -/
def truncatedRsn : Mem :=
  Mem.ofBytes [0x30, 0x0a, 0x01, 0x00, 0x00, 0x0f, 0xac, 0x04, 0x01, 0x00, 0x00, 0x0f, 0xac, 0x02]

/-- The parser takes the cipher from behind the element. -/
theorem truncated_rsn_overread : ¬Inside truncatedRsn 12 (wpaParseIe 12 none) ∧
    (run truncatedRsn (wpaParseIe 12 none)).map (·.wsec) = some (aesEnabled ||| tkipEnabled) := by
  decide +kernel

end BroadcomWl.Nas.Element
