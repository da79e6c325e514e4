import BroadcomWl.Wlconf.Shared

/-!
# Addresses of virtual interfaces

`wlconf` gives each virtual interface an address: where the variable `wlX.Y_hwaddr` is empty, the
last address that was made is counted up in its low bits, and where there is one it is left alone.
An address that is found does not count, so that the next one to be made may be the same.

**One run.** `createAddrs_apply` says what each variable holds: an interface without an address gets
that of its place among those without one.

**Runs.** The variables are the values of earlier runs, or empty. Each value that a run has made has
a number that is at most that of the interface (`Made`), so all are different if and only if each
has its own number. `vif_addresses_iff` says before which runs this comes out. -/

namespace BroadcomWl.Wlconf.VifAddr

/-! ## The code -/

/-- `ETHER_SET_LOCALADDR` -/
def etherSetLocaladdr (a : EtherAddr) : EtherAddr := Function.update a 0 (a 0 ||| 2)

/-- The next `vif_addr[5]`. The source computes with `int`, and eight bits are kept. -/
def nextOctet (maxNoVifs : Nat) (o : UInt8) : UInt8 :=
  (o &&& ~~~UInt8.ofNat (maxNoVifs - 1)) ||| (UInt8.ofNat (maxNoVifs - 1) &&& (o + 1))

/-- The variables `wlX.Y_hwaddr` of a radio, by `Y`. -/
abbrev Hwaddrs := Nat → List Char

/-- A pass of the loop: `vif_addr` and the variables. -/
def createPass (S : Shared) (maxNoVifs : Nat) (s : EtherAddr × Hwaddrs) (i : Nat) :
    EtherAddr × Hwaddrs :=
  if s.2 i = [] then
    let vifAddr := Function.update s.1 5 (nextOctet maxNoVifs (s.1 5))
    (vifAddr, Function.update s.2 i (S.etherEtoa vifAddr))
  else s

/-- The loop that creates the addresses, for the primary address `hwaddr`. -/
def createAddrs (S : Shared) (hwaddr : EtherAddr) (maxNoVifs : Nat) (nv : Hwaddrs) : Hwaddrs :=
  ((List.range' 1 (maxNoVifs - 1)).foldl (createPass S maxNoVifs) (etherSetLocaladdr hwaddr, nv)).2

/-! ## Counting -/

section

variable {k : Nat}

theorem toNat_nextOctet (hk : k ≤ 8) (o : UInt8) :
    (nextOctet (2 ^ k) o).toNat = 2 ^ k * (o.toNat / 2 ^ k) + (o.toNat + 1) % 2 ^ k := by
  have hall : ∀ k ≤ 8, ∀ n < 256, (nextOctet (2 ^ k) (UInt8.ofNat n)).toNat =
      2 ^ k * (n / 2 ^ k) + (n + 1) % 2 ^ k := by
    decide +kernel
  have ho := hall k hk o.toNat o.toNat_lt
  rwa [UInt8.ofNat_toNat] at ho

theorem toNat_iterate_nextOctet (hk : k ≤ 8) (o : UInt8) (r : Nat) :
    ((nextOctet (2 ^ k))^[r] o).toNat = 2 ^ k * (o.toNat / 2 ^ k) + (o.toNat + r) % 2 ^ k := by
  have hpos : 0 < 2 ^ k := Nat.two_pow_pos k
  induction r with
  | zero => exact (Nat.div_add_mod _ _).symm
  | succ r ih =>
      have hlt := Nat.mod_lt (o.toNat + r) hpos
      have hdiv : (2 ^ k * (o.toNat / 2 ^ k) + (o.toNat + r) % 2 ^ k) / 2 ^ k =
          o.toNat / 2 ^ k := by
        rw [Nat.mul_add_div hpos, Nat.div_eq_of_lt hlt, Nat.add_zero]
      rw [Function.iterate_succ_apply', toNat_nextOctet hk, ih, hdiv, Nat.add_assoc,
        Nat.mul_add_mod, Nat.mod_add_mod, Nat.add_assoc]

/-- **The group**: as many steps as it has members lead to different octets. -/
theorem iterate_nextOctet_inj (hk : k ≤ 8) (o : UInt8) {r r' : Nat} (hr : r < 2 ^ k)
    (hr' : r' < 2 ^ k) (h : (nextOctet (2 ^ k))^[r] o = (nextOctet (2 ^ k))^[r'] o) : r = r' := by
  have hnat := congrArg UInt8.toNat h
  rw [toNat_iterate_nextOctet hk, toNat_iterate_nextOctet hk] at hnat
  have hmod : o.toNat + r ≡ o.toNat + r' [MOD 2 ^ k] := Nat.add_left_cancel hnat
  exact Nat.ModEq.eq_of_lt_of_lt (Nat.ModEq.add_left_cancel' _ hmod) hr hr'

end

/-- The address with a number: as many times counted up. -/
def vifAddr (hwaddr : EtherAddr) (maxNoVifs r : Nat) : EtherAddr :=
  Function.update (etherSetLocaladdr hwaddr) 5 ((nextOctet maxNoVifs)^[r] (hwaddr 5))

section

variable (S : Shared) (hwaddr : EtherAddr) (maxNoVifs : Nat)

theorem etherSetLocaladdr_five : etherSetLocaladdr hwaddr 5 = hwaddr 5 :=
  Function.update_of_ne (by decide) _ _

theorem vifAddr_zero : vifAddr hwaddr maxNoVifs 0 = etherSetLocaladdr hwaddr := by
  rw [vifAddr, Function.iterate_zero_apply, ← etherSetLocaladdr_five hwaddr,
    Function.update_eq_self]

theorem vifAddr_five (r : Nat) :
    vifAddr hwaddr maxNoVifs r 5 = (nextOctet maxNoVifs)^[r] (hwaddr 5) :=
  Function.update_self _ _ _

theorem vifAddr_succ (r : Nat) :
    Function.update (vifAddr hwaddr maxNoVifs r) 5
      (nextOctet maxNoVifs (vifAddr hwaddr maxNoVifs r 5)) =
      vifAddr hwaddr maxNoVifs (r + 1) := by
  rw [vifAddr_five, ← Function.iterate_succ_apply' (nextOctet maxNoVifs), vifAddr,
    Function.update_idem, vifAddr]

/-! ## One run -/

/-- How many of the first variables are empty. -/
def emptyCount (nv : Hwaddrs) (n : Nat) : Nat := (List.range' 1 n).countP fun i => nv i = []

theorem emptyCount_succ (nv : Hwaddrs) (n : Nat) :
    emptyCount nv (n + 1) = emptyCount nv n + if nv (n + 1) = [] then 1 else 0 := by
  rw [emptyCount, List.range'_1_concat, List.countP_append, List.countP_singleton, Nat.add_comm 1 n]
  simp [emptyCount]

theorem emptyCount_le (nv : Hwaddrs) (n : Nat) : emptyCount nv n ≤ n := by
  have hle := List.countP_le_length (p := fun i => decide (nv i = [])) (l := List.range' 1 n)
  rwa [List.length_range'] at hle

theorem emptyCount_eq_iff (nv : Hwaddrs) (n : Nat) :
    emptyCount nv n = n ↔ ∀ i, 1 ≤ i → i ≤ n → nv i = [] := by
  have hall := List.countP_eq_length (p := fun i => decide (nv i = [])) (l := List.range' 1 n)
  rw [List.length_range'] at hall
  rw [emptyCount, hall]
  refine ⟨fun h i hi hn => ?_, fun h i hi => ?_⟩
  · exact of_decide_eq_true (h i (List.mem_range'_1.mpr ⟨hi, by omega⟩))
  · rw [List.mem_range'_1] at hi
    exact decide_eq_true (h i hi.1 (by omega))

/-- One more pass does not concern an interface of which `p` does not hold. -/
theorem window_succ_iff {n i : Nat} {p : Prop} (hlast : i = n + 1 → ¬p) :
    (1 ≤ i ∧ i ≤ n ∧ p) ↔ (1 ≤ i ∧ i ≤ n + 1 ∧ p) := by
  constructor
  · exact fun h => ⟨h.1, Nat.le_succ_of_le h.2.1, h.2.2⟩
  · intro h
    have hne : i ≠ n + 1 := fun heq => hlast heq h.2.2
    exact ⟨h.1, Nat.le_of_lt_succ (lt_of_le_of_ne h.2.1 hne), h.2.2⟩

/-- **The loop**, after some passes. -/
theorem createPass_foldl (nv : Hwaddrs) (n : Nat) :
    (List.range' 1 n).foldl (createPass S maxNoVifs) (etherSetLocaladdr hwaddr, nv) =
      (vifAddr hwaddr maxNoVifs (emptyCount nv n), fun i =>
        if 1 ≤ i ∧ i ≤ n ∧ nv i = [] then S.etherEtoa (vifAddr hwaddr maxNoVifs (emptyCount nv i))
        else nv i) := by
  induction n with
  | zero =>
      rw [emptyCount, List.range'_zero, List.countP_nil, vifAddr_zero, List.foldl_nil]
      refine congrArg (Prod.mk _) (funext fun i => ?_)
      rw [if_neg (by omega)]
  | succ n ih =>
      rw [List.range'_1_concat, List.foldl_append, ih, List.foldl_cons, List.foldl_nil,
        Nat.add_comm 1 n, createPass, emptyCount_succ]
      simp only
      rw [if_neg (by omega : ¬(1 ≤ n + 1 ∧ n + 1 ≤ n ∧ nv (n + 1) = []))]
      by_cases hempty : nv (n + 1) = []
      · rw [if_pos hempty, if_pos hempty, vifAddr_succ]
        refine congrArg (Prod.mk _) (funext fun i => ?_)
        by_cases hi : i = n + 1
        · subst hi
          rw [Function.update_self, if_pos ⟨by omega, le_rfl, hempty⟩, emptyCount_succ,
            if_pos hempty]
        · rw [Function.update_of_ne hi]
          have hiff := window_succ_iff (p := nv i = []) fun heq => absurd heq hi
          simp only [hiff]
      · rw [if_neg hempty, if_neg hempty, Nat.add_zero]
        refine congrArg (Prod.mk _) (funext fun i => ?_)
        have hiff := window_succ_iff (p := nv i = []) fun heq hnil => hempty (heq ▸ hnil)
        simp only [hiff]

/-- **What a run makes.** -/
theorem createAddrs_apply (nv : Hwaddrs) {i : Nat} (hi : 1 ≤ i) (hmax : i < maxNoVifs) :
    createAddrs S hwaddr maxNoVifs nv i =
      if nv i = [] then S.etherEtoa (vifAddr hwaddr maxNoVifs (emptyCount nv i)) else nv i := by
  have hiff : (1 ≤ i ∧ i ≤ maxNoVifs - 1 ∧ nv i = []) ↔ nv i = [] := by
    constructor
    · exact fun h => h.2.2
    · exact fun h => ⟨hi, by omega, h⟩
  rw [createAddrs, createPass_foldl]
  simp only [hiff]

/-! ## Runs -/

/-- Values of earlier runs, some of which may have been deleted. -/
inductive Reached : Hwaddrs → Prop
  | empty : Reached fun _ => []
  | delete {nv : Hwaddrs} (i : Nat) : Reached nv → Reached (Function.update nv i [])
  | create {nv : Hwaddrs} : Reached nv → Reached (createAddrs S hwaddr maxNoVifs nv)

/-- A value of a run: its number is at most that of the interface. -/
def Made (nv : Hwaddrs) (i : Nat) : Prop :=
  ∃ r, 1 ≤ r ∧ r ≤ i ∧ nv i = S.etherEtoa (vifAddr hwaddr maxNoVifs r)

/-- The addresses differ from each other and from the primary one. -/
structure Unique (nv : Hwaddrs) : Prop where
  primary : ∀ i, 1 ≤ i → i < maxNoVifs → ∃ a, S.parse (nv i) = some a ∧ a ≠ hwaddr
  distinct : ∀ i j, 1 ≤ i → i < j → j < maxNoVifs → S.parse (nv i) ≠ S.parse (nv j)

variable {S hwaddr maxNoVifs} {nv : Hwaddrs} {k : Nat}

theorem emptyCount_pos {i : Nat} (hi : 1 ≤ i) (hempty : nv i = []) : 1 ≤ emptyCount nv i := by
  cases i with
  | zero => omega
  | succ i =>
      rw [emptyCount_succ, if_pos hempty]
      omega

theorem made_createAddrs (h : ∀ i, 1 ≤ i → i < maxNoVifs → nv i = [] ∨ Made S hwaddr maxNoVifs nv i)
    (i : Nat) (hi : 1 ≤ i) (hmax : i < maxNoVifs) :
    Made S hwaddr maxNoVifs (createAddrs S hwaddr maxNoVifs nv) i := by
  rw [Made, createAddrs_apply S hwaddr maxNoVifs nv hi hmax]
  by_cases hempty : nv i = []
  · rw [if_pos hempty]
    exact ⟨emptyCount nv i, emptyCount_pos hi hempty, emptyCount_le nv i, rfl⟩
  · rw [if_neg hempty]
    exact (h i hi hmax).resolve_left hempty

theorem Reached.made (h : Reached S hwaddr maxNoVifs nv) :
    ∀ i, 1 ≤ i → i < maxNoVifs → nv i = [] ∨ Made S hwaddr maxNoVifs nv i := by
  induction h with
  | empty => exact fun _ _ _ => .inl rfl
  | delete j _ ih =>
      intro i hi hmax
      by_cases hij : i = j
      · exact .inl (hij ▸ Function.update_self _ _ _)
      · rw [Made, Function.update_of_ne hij]
        exact ih i hi hmax
  | create _ ih => exact fun i hi hmax => .inr (made_createAddrs ih i hi hmax)

theorem vifAddr_inj (hk : k ≤ 8) {r r' : Nat} (hr : r < 2 ^ k) (hr' : r' < 2 ^ k)
    (h : vifAddr hwaddr (2 ^ k) r = vifAddr hwaddr (2 ^ k) r') : r = r' := by
  have hfive := congrFun h 5
  rw [vifAddr_five, vifAddr_five] at hfive
  exact iterate_nextOctet_inj hk _ hr hr' hfive

theorem etherEtoa_vifAddr_inj (hk : k ≤ 8) {r r' : Nat} (hr : r < 2 ^ k) (hr' : r' < 2 ^ k)
    (h : S.etherEtoa (vifAddr hwaddr (2 ^ k) r) = S.etherEtoa (vifAddr hwaddr (2 ^ k) r')) :
    r = r' := by
  have hparse := congrArg S.parse h
  rw [S.parse_etherEtoa, S.parse_etherEtoa] at hparse
  exact vifAddr_inj hk hr hr' (Option.some.inj hparse)

theorem vifAddr_ne_primary (hk : k ≤ 8) {r : Nat} (hr : 1 ≤ r) (hmax : r < 2 ^ k) :
    vifAddr hwaddr (2 ^ k) r ≠ hwaddr := by
  intro h
  have hfive := congrFun h 5
  rw [vifAddr_five] at hfive
  have hzero : r = 0 := iterate_nextOctet_inj hk (hwaddr 5) hmax (Nat.two_pow_pos k) hfive
  omega

/-- **Different numbers**: each interface has its own. -/
theorem unique_iff_own (hk : k ≤ 8) (hmade : ∀ i, 1 ≤ i → i < 2 ^ k → Made S hwaddr (2 ^ k) nv i) :
    Unique S hwaddr (2 ^ k) nv ↔ ∀ i, 1 ≤ i → i < 2 ^ k →
    nv i = S.etherEtoa (vifAddr hwaddr (2 ^ k) i) := by
  constructor
  · intro hunique i
    induction i using Nat.strong_induction_on with
    | _ i ih =>
        intro hi hmax
        obtain ⟨r, hr, hri, hvalue⟩ := hmade i hi hmax
        by_cases heq : r = i
        · rw [hvalue, heq]
        · -- a smaller number is that of another interface
          have hother := ih r (by omega) hr (by omega)
          exact absurd (congrArg S.parse (hother.trans hvalue.symm))
            (hunique.distinct r i hr (by omega) hmax)
  · intro hown
    refine ⟨fun i hi hmax => ?_, fun i j hi hij hj heq => ?_⟩
    · rw [hown i hi hmax, S.parse_etherEtoa]
      exact ⟨_, rfl, vifAddr_ne_primary hk hi hmax⟩
    · rw [hown i hi (by omega), hown j (by omega) hj, S.parse_etherEtoa, S.parse_etherEtoa] at heq
      have hnumber := vifAddr_inj hk (by omega) hj (Option.some.inj heq)
      omega

theorem not_unique_of_large (hk : 8 < k)
    (hmade : ∀ i, 1 ≤ i → i < 2 ^ k → Made S hwaddr (2 ^ k) nv i) :
    ¬Unique S hwaddr (2 ^ k) nv := by
  intro hunique
  have hlarge : 2 ^ 9 ≤ 2 ^ k := Nat.pow_le_pow_right (by decide) hk
  -- the last octet of each address; the others are those of the primary one
  have hoctet (i : Nat) (hi : i ∈ Finset.Icc 1 257) : ∃ o : UInt8,
      S.parse (nv i) = some (Function.update (etherSetLocaladdr hwaddr) 5 o) := by
    rw [Finset.mem_Icc] at hi
    obtain ⟨r, -, -, hvalue⟩ := hmade i hi.1 (by omega)
    exact ⟨_, by rw [hvalue, S.parse_etherEtoa, vifAddr]⟩
  choose! octet hoctet using hoctet
  have hcard : (Finset.range 256).card < (Finset.Icc 1 257).card := by
    rw [Finset.card_range, Nat.card_Icc]
    decide
  obtain ⟨i, hi, j, hj, hne, heq⟩ := Finset.exists_ne_map_eq_of_card_lt_of_maps_to hcard
    (f := fun i => (octet i).toNat) fun i _ => Finset.mem_range.mpr (octet i).toNat_lt
  have hsame : S.parse (nv i) = S.parse (nv j) := by
    rw [hoctet i hi, hoctet j hj, UInt8.toNat_inj.mp heq]
  rw [Finset.mem_Icc] at hi hj
  cases Nat.lt_or_gt_of_ne hne with
  | inl hlt => exact hunique.distinct i j hi.1 hlt (by omega) hsame
  | inr hgt => exact hunique.distinct j i hj.1 hgt (by omega) hsame.symm

/-- **Before the run.** The addresses are different if and only if there are at most 256 and the
variables that have a value are the last ones, each with the address of its own number. -/
theorem vif_addresses_iff (S : Shared) (hwaddr : EtherAddr) (k : Nat) (nv : Hwaddrs)
    (h : Reached S hwaddr (2 ^ k) nv) :
    Unique S hwaddr (2 ^ k) (createAddrs S hwaddr (2 ^ k) nv) ↔
      k ≤ 8 ∧ ∀ i, 1 ≤ i → i < 2 ^ k → nv i ≠ [] →
        nv i = S.etherEtoa (vifAddr hwaddr (2 ^ k) i) ∧ ∀ j, i < j → j < 2 ^ k → nv j ≠ [] := by
  have hmade := made_createAddrs h.made
  by_cases hk : k ≤ 8
  · rw [unique_iff_own hk hmade]
    refine ⟨fun hown => ⟨hk, fun i hi hmax hset => ⟨?_, fun j hij hj hempty => ?_⟩⟩,
      fun ⟨_, hcond⟩ i hi hmax => ?_⟩
    · rw [← hown i hi hmax, createAddrs_apply S hwaddr (2 ^ k) nv hi hmax, if_neg hset]
    · -- an empty variable gets its own number only if all before it are empty
      have hvalue := hown j (by omega) hj
      rw [createAddrs_apply S hwaddr (2 ^ k) nv (by omega) hj, if_pos hempty] at hvalue
      have hcount := etherEtoa_vifAddr_inj hk ((emptyCount_le nv j).trans_lt hj) hj hvalue
      exact hset ((emptyCount_eq_iff nv j).mp hcount i hi (by omega))
    · rw [createAddrs_apply S hwaddr (2 ^ k) nv hi hmax]
      by_cases hempty : nv i = []
      · have hcount : emptyCount nv i = i := by
          rw [emptyCount_eq_iff]
          intro j hj hji
          by_contra hset
          by_cases heq : j = i
          · exact hset (heq ▸ hempty)
          · exact (hcond j hj (by omega) hset).2 i (by omega) hmax hempty
        rw [if_pos hempty, hcount]
      · rw [if_neg hempty]
        exact (hcond i hi hmax hempty).1
  · exact ⟨fun hunique => absurd hunique (not_unique_of_large (by omega) hmade),
      fun hcond => absurd hcond.1 hk⟩

end

/-- After a first run for three interfaces. -/
def firstRun : Hwaddrs :=
  createAddrs Shared.colons ![0x00, 0x90, 0x4c, 0x00, 0x00, 0x10] (2 ^ 2) fun _ => []

/-- The address of the first of three interfaces has been deleted: it gets the same one again. -/
theorem vif_addresses_iff_last :
    Unique Shared.colons ![0x00, 0x90, 0x4c, 0x00, 0x00, 0x10] (2 ^ 2)
      (createAddrs Shared.colons ![0x00, 0x90, 0x4c, 0x00, 0x00, 0x10] (2 ^ 2)
        (Function.update firstRun 1 [])) := by
  have hown : ∀ i < 2 ^ 2, 1 ≤ i → Function.update firstRun 1 [] i ≠ [] →
      Function.update firstRun 1 [] i =
        Shared.colons.etherEtoa (vifAddr ![0x00, 0x90, 0x4c, 0x00, 0x00, 0x10] (2 ^ 2) i) ∧
      ∀ j < 2 ^ 2, i < j → Function.update firstRun 1 [] j ≠ [] := by
    decide +kernel
  exact (vif_addresses_iff Shared.colons ![0x00, 0x90, 0x4c, 0x00, 0x00, 0x10] 2 _
    (.delete 1 (.create .empty))).mpr
    ⟨by decide, fun i hi hmax hset =>
      ⟨(hown i hmax hi hset).1, fun j hij hj => (hown i hmax hi hset).2 j hj hij⟩⟩

/-- The address of the second of three interfaces has been deleted: it gets that of the
first one. -/
theorem second_run_collides :
    Reached Shared.colons ![0x00, 0x90, 0x4c, 0x00, 0x00, 0x10] (2 ^ 2)
        (Function.update firstRun 2 []) ∧
      ¬Unique Shared.colons ![0x00, 0x90, 0x4c, 0x00, 0x00, 0x10] (2 ^ 2)
        (createAddrs Shared.colons ![0x00, 0x90, 0x4c, 0x00, 0x00, 0x10] (2 ^ 2)
          (Function.update firstRun 2 [])) :=
  ⟨.delete 2 (.create .empty), fun h =>
    h.distinct 1 2 (by decide) (by decide) (by decide) (by decide +kernel)⟩

end BroadcomWl.Wlconf.VifAddr
