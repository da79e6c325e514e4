import BroadcomWl.Nas.CheckIe
import BroadcomWl.Nas.RefineKeys

/-!
# The elements that `wpa_build_ie` writes

`wpa_build_ie` writes elements one after the other, and checks before each part of an element that
there is room for it. There is no check before the capabilities, and the second element of two is
checked against what the first one found, less two octets.

**Right results.** A result is right if what is written fits the buffer, if `*len` is the length of
it, and if `wpa_parse_ie` makes of an element the mode and the ciphers that it was built for.
`build_ie_iff` says for which sizes of the buffer all results are right. The part about
`wpa_parse_ie` always holds (`parsesTo_own`). -/

namespace BroadcomWl.Nas.Element

open BroadcomWl.Lib (wp wp_bind wp_ite wp_pure wp_mono)
open BroadcomWl.Lib.Reader

/-! ## The code -/

/-- The elements in a buffer, from its start on, and `*len`. -/
structure BuiltIe where
  ies : List Bytes
  len : Nat

/-- What is written into the buffer. -/
def BuiltIe.octets (b : BuiltIe) : Bytes := b.ies.flatten

/-- One element in a buffer with `bufLen` octets to go: the element, and the tag length. `head` is
what stands between the length octet and the suites. -/
def buildElement (tag : UInt8) (head oui mcast : Bytes) (ucast akm : Nat) (cap : Bytes)
    (bufLen : Nat) : Option (Bytes × Nat) :=
  if bufLen < 2 + head.length then none else
    let bufLen := bufLen - 2
    let tagLen := head.length
    if bufLen < tagLen + 4 then none else
      let tagLen := tagLen + 4
      if bufLen < tagLen + 2 then none else
        let tagLen := tagLen + 2
        if bufLen < tagLen + 4 then none else
          let tagLen := tagLen + 4
          if bufLen < tagLen + 2 then none else
            let tagLen := tagLen + 2
            if bufLen < tagLen + 4 then none else
              -- The capabilities are written whether there is room or not.
              let tagLen := tagLen + 4 + cap.length
              some ([tag, UInt8.ofNat tagLen] ++ head ++ mcast ++ [1, 0] ++ oui ++
                [UInt8.ofNat ucast] ++ [1, 0] ++ oui ++
                [UInt8.ofNat akm] ++ cap, tagLen)

/-- The RSN element is built. -/
def buildsRsn (mode staMode : Nat) : Bool := checkWpa2 mode && checkWpa2 staMode

/-- The WPA element is built. -/
def buildsWpa (mode staMode : Nat) : Bool :=
  has mode (wpa ||| wpaPsk) && has staMode (wpa ||| wpaPsk)

/-- The RSN element of `wpa_build_ie`. -/
def buildRsn (wds : Bool) (mode wsec algo : Nat) (cap : Bytes) (bufLen : Nat) :
    Option (Bytes × Nat) :=
  buildElement dot11MngRsnId [1, 0] wpa2Oui (mcastSuite wds wsec algo wpa2Oui) (ucastOf wsec)
    (akmOf mode wpa2 wpa2Psk) cap
    bufLen

/-- The WPA element of `wpa_build_ie`. -/
def buildWpa (wds : Bool) (mode wsec algo : Nat) (cap : Bytes) (bufLen : Nat) :
    Option (Bytes × Nat) :=
  buildElement dot11MngWpaId (wpaOui ++ [1, 1, 0]) wpaOui (mcastSuite wds wsec algo wpaOui)
    (ucastOf wsec)
    (akmOf mode wpa wpaPsk) cap bufLen

/-- The capabilities of an element; on a WDS link there are none. -/
def ieCaps (wds : Bool) (cap : UInt8 × UInt8) : Bytes := if wds then [] else [cap.1, cap.2]

/-- `wpa_build_ie` behind the RSN element. -/
def addWpa (wds : Bool) (mode wsec algo staMode : Nat) (cap : UInt8 × UInt8) (bufLen : Nat)
    (first : BuiltIe) : Option BuiltIe :=
  if buildsWpa mode staMode then
    (buildWpa wds mode wsec algo (ieCaps wds cap) bufLen).map fun ie =>
      ⟨first.ies ++ [ie.1], first.len + (2 + ie.2)⟩
  else some first

/-- `wpa_build_ie` for a supplicant or an end of a WDS link, with the capabilities that it finds for
either element; on a WDS link the first element is the only one. -/
def buildOwn (wds : Bool) (mode wsec algo staMode : Nat) (cap2 cap1 : UInt8 × UInt8)
    (bufLen : Nat) : Option BuiltIe :=
  if buildsRsn mode staMode then
    (buildRsn wds mode wsec algo (ieCaps wds cap2) bufLen).bind fun ie =>
      if wds then some ⟨[ie.1], 2 + ie.2⟩
      else addWpa wds mode wsec algo staMode cap1 (bufLen - 2) ⟨[ie.1], 2 + ie.2⟩
  else addWpa wds mode wsec algo staMode cap1 bufLen ⟨[], 0⟩

/-- `wpa_build_ie` for an authenticator, with the driver's answer to `wpaie`: it hands over an
element of the driver's. -/
def copyIe (drv : Option Mem) (staMode bufLen : Nat) : BuiltIe :=
  match drv with
  | none => ⟨[], 0⟩
  | some buf =>
    let ie := if checkNas staMode then pickWpaIe buf staMode bufLen 2 0 else []
    ⟨if ie = [] then [] else [ie], ie.length⟩

/-! ## In the program -/

theorem buildElement_eq {tag : UInt8} {head oui mcast cap : Bytes} {ucast akm bufLen : Nat} :
    buildElement tag head oui mcast ucast akm cap bufLen =
      if bufLen < head.length + 18 then none
      else some ([tag, UInt8.ofNat (head.length + 16 + cap.length)] ++ head ++ mcast ++
        [1, 0] ++ oui ++
        [UInt8.ofNat ucast] ++ [1, 0] ++ oui ++ [UInt8.ofNat akm] ++ cap,
        head.length + 16 + cap.length) := by
  unfold buildElement
  dsimp only
  by_cases hroom : bufLen < head.length + 18
  · rw [if_pos hroom]
    split_ifs
    all_goals first | rfl | omega
  · rw [if_neg hroom, if_neg (by omega), if_neg (by omega), if_neg (by omega), if_neg (by omega),
      if_neg (by omega), if_neg (by omega)]

theorem buildSuites_eq {tag : UInt8} {head oui mcast cap : Bytes} {ucast akm bufLen : Nat}
    (houi : oui.length = 3) (hmcast : mcast.length = 4) :
    buildSuites tag head oui mcast ucast akm cap bufLen =
      (buildElement tag head oui mcast ucast akm cap bufLen).map Prod.fst := by
  have hbody :
      (head ++ mcast ++ [1, 0] ++ oui ++ [UInt8.ofNat ucast] ++ [1, 0] ++ oui ++
      [UInt8.ofNat akm]).length =
      head.length + 16 := by
    simp [houi, hmcast]
  rw [buildElement_eq, buildSuites, hbody]
  by_cases hroom : bufLen < head.length + 18
  · rw [if_pos hroom, if_pos (by omega), Option.map_none]
  · rw [if_neg hroom, if_neg (by omega), Option.map_some]
    simp only [List.append_assoc]

section

variable (c : Ctx) (w : World)

theorem buildCap_caps :
    wp (buildCap c) (fun cap _ => ∃ p, cap = ieCaps c.cfg.wds p) (fun _ _ => False) w := by
  unfold ieCaps
  simp only [buildCap, wpaGetRsnCap, wp_bind, wp_ite, wp_pure, wp_oracle]
  refine ⟨fun hwds => ⟨(0, 0), by rw [if_pos hwds]⟩, fun hwds => ?_⟩
  split
  · exact ⟨w.call.cap, by rw [if_neg hwds]⟩
  · simp only [wp_pure]
    split
    · rename_i cap _
      exact ⟨cap, by rw [if_neg hwds]⟩
    · exact ⟨w.call.cap, by rw [if_neg hwds]⟩

theorem second_built (wsec algo staMode left : Nat) (first : BuiltIe) :
    wp (if (has c.cfg.mode (wpa ||| wpaPsk) && has staMode (wpa ||| wpaPsk)) = true then do
          let cap ← buildCap c
          pure (Option.map (fun ie => first.octets ++ ie)
            (buildSuites dot11MngWpaId (wpaOui ++ [1, 1, 0]) wpaOui
              (mcastSuite c.cfg.wds wsec algo wpaOui) (ucastOf wsec)
              (akmOf c.cfg.mode wpa wpaPsk) cap left))
        else pure (some first.octets))
      (fun x _ =>
        ∃ cap1, x = (addWpa c.cfg.wds c.cfg.mode wsec algo staMode cap1 left first).map (·.octets))
      (fun _ _ => False) w := by
  simp only [wp_ite, wp_bind, wp_pure]
  refine ⟨fun hwpa => ?_, fun hwpa => ⟨(0, 0), ?_⟩⟩
  · refine wp_mono (buildCap_caps c w) (fun cap _ hcap => ?_) (fun _ _ h => h)
    obtain ⟨cap1, rfl⟩ := hcap
    refine ⟨cap1, ?_⟩
    rw [addWpa, if_pos (show buildsWpa c.cfg.mode staMode = true from hwpa), buildWpa,
      buildSuites_eq rfl (mcastSuite_length _ _ _ rfl), Option.map_map, Option.map_map]
    simp only [Function.comp_def, BuiltIe.octets, List.flatten_append, List.flatten_singleton]
  · rw [addWpa, if_neg (show ¬buildsWpa c.cfg.mode staMode = true from hwpa), Option.map_some]

/-- **What the program builds.** -/
theorem wpaBuildIe_built (wsec algo staMode bufLen : Nat) :
    wp (wpaBuildIe c wsec algo staMode bufLen)
      (fun x _ => if c.cfg.wds = false ∧ c.cfg.role = .authenticator then
          ∃ drv, x = some (copyIe drv staMode bufLen).octets
        else ∃ cap2 cap1,
          x = (buildOwn c.cfg.wds c.cfg.mode wsec algo staMode cap2 cap1 bufLen).map (·.octets))
      (fun _ _ => False) w := by
  by_cases hown : c.cfg.wds = false ∧ c.cfg.role = .authenticator
  · simp only [if_pos hown]
    have hcond : (!c.cfg.wds && decide (c.cfg.role = .authenticator)) = true := by
      simp [hown.1, hown.2]
    simp only [wpaBuildIe, hcond, if_true, wp_ite, wp_bind, wp_pure, wp_oracle]
    refine ⟨fun hmode => ?_, fun hmode => ⟨none, rfl⟩⟩
    cases c.drv.wpaIe w.calls with
    | none => exact ⟨none, rfl⟩
    | some buf =>
        refine ⟨some buf, ?_⟩
        simp only [copyIe, hmode, if_true, BuiltIe.octets]
        split
        · rename_i hnil
          rw [hnil]
          rfl
        · rw [List.flatten_singleton]
  · simp only [if_neg hown]
    have hcond : (!c.cfg.wds && decide (c.cfg.role = .authenticator)) = false := by
      simpa [not_and] using hown
    by_cases hrsn : buildsRsn c.cfg.mode staMode = true
    · have hrsn' : (checkWpa2 c.cfg.mode && checkWpa2 staMode) = true := hrsn
      simp only [wpaBuildIe, hcond, if_false, Bool.false_eq_true, hrsn', if_true, wp_bind, wp_pure,
        Bool.true_and]
      refine wp_mono (buildCap_caps c w) (fun cap w' hcap => ?_) (fun _ _ h => h)
      obtain ⟨cap2, rfl⟩ := hcap
      have hie :
          buildElement dot11MngRsnId [1, 0] wpa2Oui (mcastSuite c.cfg.wds wsec algo wpa2Oui)
          (ucastOf wsec)
          (akmOf c.cfg.mode wpa2 wpa2Psk) (ieCaps c.cfg.wds cap2) bufLen =
            buildRsn c.cfg.wds c.cfg.mode wsec algo (ieCaps c.cfg.wds cap2) bufLen := rfl
      rw [buildSuites_eq rfl (mcastSuite_length _ _ _ rfl), hie]
      simp only [buildOwn, hrsn, if_true]
      cases hx : buildRsn c.cfg.wds c.cfg.mode wsec algo (ieCaps c.cfg.wds cap2) bufLen with
      | none => exact ⟨cap2, (0, 0), by rw [hx]; rfl⟩
      | some ie =>
          rw [Option.map_some]
          dsimp only
          rw [wp_ite]
          refine ⟨fun hwds => ?_, fun hwds => ?_⟩
          · rw [wp_pure]
            refine ⟨cap2, (0, 0), ?_⟩
            rw [hx, Option.bind_some, if_pos hwds]
            simp [BuiltIe.octets]
          · have h := second_built c w' wsec algo staMode (bufLen - 2) ⟨[ie.1], 2 + ie.2⟩
            have hoctets : (⟨[ie.1], 2 + ie.2⟩ : BuiltIe).octets = ie.1 := List.flatten_singleton
            rw [hoctets] at h
            refine wp_mono h (fun x _ hx' => ?_) (fun _ _ h => h)
            obtain ⟨cap1, rfl⟩ := hx'
            exact ⟨cap2, cap1, by rw [hx, Option.bind_some, if_neg hwds]⟩
    · have hrsn' : (checkWpa2 c.cfg.mode && checkWpa2 staMode) = false := Bool.eq_false_iff.mpr hrsn
      simp only [wpaBuildIe, hcond, if_false, Bool.false_eq_true, hrsn', wp_bind, wp_pure,
        Bool.false_and]
      refine wp_mono (second_built c w wsec algo staMode bufLen ⟨[], 0⟩) (fun x _ hx => ?_)
        (fun _ _ h => h)
      obtain ⟨cap1, rfl⟩ := hx
      exact ⟨(0, 0), cap1, by rw [buildOwn, if_neg hrsn]⟩

end

/-! ## What the parser makes of an element -/

section

variable {m : Mem} {n : Nat}

/-- The parser makes ciphers and a mode of an element, wherever it stands, and reads inside it. -/
def ParsesTo (ie : Bytes) (wsec mode : Nat) : Prop :=
  ∀ (m : Mem) (sta : Option Bytes), m.Holds 0 ie →
    Inside m ie.length (wpaParseIe ie.length sta) ∧
      ∃ p, run m (wpaParseIe ie.length sta) = some p ∧ p.wsec = wsec ∧ p.mode = mode

/-- **An element with one suite of each kind** is accepted, and read as it stands. -/
theorem parse_oneSuite {h : IeHeader} (sta : Option Bytes) (hh : Nas.wpaIeHeader m n = some h)
    (hn : h.suites + 16 ≤ n) (hucast : m.le16 (h.suites + 4) = 1)
    (hakm : m.le16 (h.suites + 10) = 1) (huoui : m.slice (h.suites + 6) 3 = h.oui)
    (haoui : m.slice (h.suites + 12) 3 = h.oui) :
    Inside m n (wpaParseIe n sta) ∧ ∃ p, run m (wpaParseIe n sta) = some p ∧
      p.wsec = suiteBits wpaCipher2wsec (suiteAt m h.oui h.suites) |||
        wpaCipher2wsec (m (h.suites + 9)).toNat ∧
      p.mode = wpaAuth2mode (h.akm2auth (m (h.suites + 15)).toNat) := by
  have hfits : ParseFits m h (n - h.suites) := by
    refine ⟨by omega, fun _ _ =>
      ⟨⟨by omega, fun hleft => by omega⟩, fun _ _ => ⟨by omega, fun hleft => by omega⟩⟩⟩
  have hall : ∀ h', Nas.wpaIeHeader m ((n : Int).toNat) = some h' →
      ParseFits m h' ((n : Int).toNat - h'.suites) := by
    intro h' hh'
    rw [Int.toNat_natCast, hh, Option.some.injEq] at hh'
    rwa [Int.toNat_natCast, ← hh']
  obtain ⟨hin, hreports⟩ := (parse_ie_iff m n sta).mpr hall
  have hsome := (parseMcast_isSome sta hfits.1).mpr ⟨fun _ => hucast, fun _ => hakm⟩
  obtain ⟨p, hp⟩ := Option.isSome_iff_exists.mp hsome
  have hrun : run m (wpaParseIe n sta) = some p := by
    have hleft : (n : Int) - h.suites = ((n - h.suites : Nat) : Int) := by omega
    rw [wpaParseIe, run_bind, run_wpaIeHeader, Int.toNat_natCast, hh]
    simp only [hleft, hp]
  rw [Int.toNat_natCast] at hin hreports
  obtain ⟨h', hh', hrep⟩ := hreports p hrun
  rw [hh, Option.some.injEq] at hh'
  subst hh'
  have hfields := ieFields_one (m := m) (n := n) (s := h.suites) (by omega) hucast
  have hpair : suiteAt m h.oui (h.suites + 6) = some (m (h.suites + 9)).toNat := if_pos huoui
  have hmgmt : suiteAt m h.oui (h.suites + 12) = some (m (h.suites + 15)).toNat := if_pos haoui
  refine ⟨hin, p, hrun, ?_, ?_⟩
  · rw [hrep.wsec, hfields, suitesMask_append, listed_one, listed_one, if_pos (by omega),
      if_pos (by omega), suitesMask_one, suitesMask_one, hpair]
    rfl
  · rw [hrep.mode, hfields]
    simp only [show h.suites + 12 ≤ n by omega, if_true]
    rw [hakm, listed_one, if_pos (by omega), suitesMask_one, hmgmt]
    rfl

/-! ### The suites -/

/-- The OUI of the multicast suite; on a WDS link it is not the element's. -/
def mcastOui (wds : Bool) (oui : Bytes) : Bytes := if wds then brcmOui else oui

/-- The number of the multicast suite. -/
def mcastType (wds : Bool) (wsec algo : Nat) : Nat :=
  if wds then 0 else if wsecWepEnabled wsec then wpaMcastCipher wsec algo
  else cryptoAlgo2cipher algo

theorem mcastSuite_eq (wds : Bool) (wsec algo : Nat) (oui : Bytes) :
    mcastSuite wds wsec algo oui = mcastOui wds oui ++ [UInt8.ofNat (mcastType wds wsec algo)] := by
  cases wds with
  | true => rfl
  | false =>
      simp only [mcastSuite, mcastOui, mcastType, Bool.false_eq_true, if_false]
      split <;> rfl

/-- The cipher of the multicast algorithm, with WEP instead if WEP is configured. -/
def groupCipher (wds : Bool) (wsec algo : Nat) : Nat :=
  if wds then 0
  else if wsecWepEnabled wsec ∨ algo = cryptoAlgoWep1 ∨ algo = cryptoAlgoWep128 then wepEnabled
  else if algo = cryptoAlgoTkip then tkipEnabled
  else if algo = cryptoAlgoAesCcm then aesEnabled else 0

/-- The best of the unicast ciphers that are configured. -/
def pairwiseCipher (wsec : Nat) : Nat :=
  if wsecAesEnabled wsec then aesEnabled else if wsecTkipEnabled wsec then tkipEnabled else 0

theorem ucast_cipher (wsec : Nat) :
    wpaCipher2wsec (UInt8.ofNat (ucastOf wsec)).toNat = pairwiseCipher wsec := by
  unfold ucastOf pairwiseCipher
  split_ifs <;> rfl

theorem mcast_cipher (wsec algo : Nat) :
    wpaCipher2wsec (UInt8.ofNat (mcastType false wsec algo)).toNat =
      groupCipher false wsec algo := by
  simp only [mcastType, groupCipher, Bool.false_eq_true, if_false]
  by_cases hwep : wsecWepEnabled wsec = true
  · simp only [hwep, if_true, true_or, wpaMcastCipher]
    split <;> rfl
  · simp only [hwep, if_false, false_or, cryptoAlgo2cipher, Bool.false_eq_true]
    split_ifs with h1 h2 h3 h4 h5
    all_goals first | rfl | simp_all

theorem group_suite {wds : Bool} {wsec algo off : Nat} {oui : Bytes} (houi : oui ≠ brcmOui)
    (hslice : m.slice off 3 = mcastOui wds oui)
    (htype : m (off + 3) = UInt8.ofNat (mcastType wds wsec algo)) :
    suiteBits wpaCipher2wsec (suiteAt m oui off) = groupCipher wds wsec algo := by
  rw [suiteBits_suiteAt, hslice, htype]
  cases wds with
  | true => exact if_neg (fun heq => houi heq.symm)
  | false =>
      rw [← mcast_cipher]
      exact if_pos rfl

end

/-- What an element is built for. -/
def builtCiphers (wds : Bool) (wsec algo : Nat) : Nat :=
  groupCipher wds wsec algo ||| pairwiseCipher wsec

/-- **An element as it is built** is read as it was built for. -/
theorem parse_built {m : Mem} {tag u a : UInt8} {head cap : Bytes} {wds : Bool} {wsec algo n : Nat}
    {h : IeHeader} (sta : Option Bytes) (hn : head.length + 18 ≤ n)
    (hsuites : h.suites = head.length + 2) (houi : h.oui.length = 3) (hbrcm : h.oui ≠ brcmOui)
    (hm : m.Holds 0 ([tag, UInt8.ofNat (n - 2)] ++ head ++
      (mcastOui wds h.oui ++ [UInt8.ofNat (mcastType wds wsec algo)]) ++
      [1, 0] ++ h.oui ++ [u] ++ [1, 0] ++ h.oui ++ [a] ++ cap))
    (hheader : m 0 = tag → m 1 = UInt8.ofNat (n - 2) → m.Holds 2 head →
      Nas.wpaIeHeader m n = some h) :
    Inside m n (wpaParseIe n sta) ∧ ∃ p, run m (wpaParseIe n sta) = some p ∧
      p.wsec = groupCipher wds wsec algo ||| wpaCipher2wsec u.toNat ∧
      p.mode = wpaAuth2mode (h.akm2auth a.toNat) := by
  have hmcast : (mcastOui wds h.oui).length = 3 := by
    cases wds with
    | true => rfl
    | false => exact houi
  -- The octets one by one, counted from the suites on.
  have octet {off k : Nat} {b : UInt8} (hb : m off = b) (hk : off = h.suites + k) :
      m (h.suites + k) = b := by
    rw [← hk, hb]
  have block {off k : Nat} {o : Bytes} (ho : m.Holds off o) (hk : off = h.suites + k)
      (hlen : o.length = 3) :
      m.slice (h.suites + k) 3 = o := by
    rw [← hk, ← hlen]
    exact ho
  simp only [Mem.holds_append, Mem.holds_cons, List.length_append, List.length_cons,
    List.length_nil, hmcast, houi] at hm
  obtain ⟨⟨⟨⟨⟨⟨⟨⟨⟨⟨htag, hlen, -⟩, hhead⟩, hgroup, htype, -⟩, hlow, hhigh, -⟩, huoui⟩, hu, -⟩,
      hlow', hhigh', -⟩, haoui⟩,
    ha, -⟩, -⟩ := hm
  have hhead' : m.Holds 2 head := by
    rwa [Nat.zero_add] at hhead
  have hucast : m.le16 (h.suites + 4) = 1 := by
    rw [Mem.le16, octet hlow (by omega), Nat.add_assoc, octet hhigh (by omega)]
    rfl
  have hakm : m.le16 (h.suites + 10) = 1 := by
    rw [Mem.le16, octet hlow' (by omega), Nat.add_assoc, octet hhigh' (by omega)]
    rfl
  have hmcastOui : m.slice h.suites 3 = mcastOui wds h.oui :=
    block (k := 0) hgroup (by omega) hmcast
  obtain ⟨hin, p, hp, hwsec, hmode⟩ :=
    parse_oneSuite sta (hheader htag hlen hhead') (by omega) hucast hakm
    (block huoui (by omega) houi) (block haoui (by omega) houi)
  rw [group_suite hbrcm hmcastOui (octet htype (by omega)), octet hu (by omega)] at hwsec
  rw [octet ha (by omega)] at hmode
  exact ⟨hin, p, hp, hwsec, hmode⟩

theorem ieCaps_length (wds : Bool) (cap : UInt8 × UInt8) :
    (ieCaps wds cap).length = if wds then 0 else 2 := by
  cases wds <;> rfl

/-- **How long an element is**, and how much room it asked for. -/
theorem buildElement_some {tag : UInt8} {head oui mcast cap : Bytes} {ucast akm bufLen : Nat}
    {e : Bytes × Nat} (houi : oui.length = 3) (hmcast : mcast.length = 4)
    (he : buildElement tag head oui mcast ucast akm cap bufLen = some e) :
    head.length + 18 ≤ bufLen ∧ e.1.length = head.length + 18 + cap.length ∧
    2 + e.2 = e.1.length := by
  rw [buildElement_eq] at he
  split at he
  · cases he
  · rw [Option.some.injEq] at he
    subst he
    simp only [List.length_append, List.length_cons, List.length_nil, houi, hmcast]
    omega

/-- **An element is read as it was built for**, if its header is. -/
theorem parsesTo_built {tag : UInt8} {head : Bytes} {wds : Bool} {wsec algo akm bufLen mode : Nat}
    {cap : UInt8 × UInt8} {h : IeHeader} {e : Bytes × Nat}
    (he : buildElement tag head h.oui (mcastSuite wds wsec algo h.oui) (ucastOf wsec) akm
      (ieCaps wds cap) bufLen = some e)
    (hsuites : h.suites = head.length + 2) (houi : h.oui.length = 3) (hbrcm : h.oui ≠ brcmOui)
    (hheader : ∀ m n, head.length + 18 ≤ n → n ≤ head.length + 20 → m 0 = tag →
      m 1 = UInt8.ofNat (n - 2) → m.Holds 2 head → Nas.wpaIeHeader m n = some h)
    (hmode : wpaAuth2mode (h.akm2auth (UInt8.ofNat akm).toNat) = mode) :
    ParsesTo e.1 (builtCiphers wds wsec algo) mode := by
  obtain ⟨-, hlength, -⟩ := buildElement_some houi (mcastSuite_length wds wsec algo houi) he
  have hcap : (ieCaps wds cap).length ≤ 2 := by
    rw [ieCaps_length]
    split <;> omega
  rw [buildElement_eq, mcastSuite_eq] at he
  split at he
  · cases he
  · rw [Option.some.injEq] at he
    intro m sta hm
    have htag : head.length + 16 + (ieCaps wds cap).length = e.1.length - 2 := by omega
    have hm' := hm
    rw [← he, htag] at hm'
    have h :=
      parse_built sta (by omega) hsuites houi hbrcm hm' (hheader m e.1.length (by omega) (by omega))
    rw [ucast_cipher, hmode] at h
    exact h

theorem length_octet {m : Mem} {h : Bytes} {n : Nat} (hmin : h.length + 18 ≤ n)
    (hmax : n ≤ h.length + 20) (hlen : m 1 = UInt8.ofNat (n - 2)) (hshort : h.length ≤ 6) :
    bcmValidTlv m n = true ∧ h.length + 16 ≤ (m 1).toNat := by
  have hnat : (m 1).toNat = n - 2 := by
    rw [hlen, UInt8.toNat_ofNat']
    omega
  simp only [bcmValidTlv, hnat, Bool.and_eq_true, decide_eq_true_eq]
  omega

/-- **The RSN element** is read as it was built for. -/
theorem parsesTo_rsn {wds : Bool} {mode wsec algo bufLen : Nat} {cap : UInt8 × UInt8}
    {e : Bytes × Nat} (he : buildRsn wds mode wsec algo (ieCaps wds cap) bufLen = some e)
    (hmode : mode = wpa2 ∨ mode = wpa2Psk) :
    ParsesTo e.1 (builtCiphers wds wsec algo) mode := by
  refine @parsesTo_built _ _ _ _ _ _ _ _ _ ⟨4, wpa2Oui, wpa2Akm2auth⟩ _ he rfl rfl (by decide)
    (fun m n hmin hmax htag hlen hhead => ?_) ?_
  · obtain ⟨hvalid, hlong⟩ := length_octet (h := [1, 0]) hmin hmax hlen (by decide)
    simp only [Mem.holds_cons] at hhead
    have hversion : m.le16 2 = 1 := by
      rw [Mem.le16, hhead.1, hhead.2.1]
      rfl
    simp only [Nas.wpaIeHeader, hvalid, htag, hversion, Bool.not_true, Bool.false_eq_true, if_false,
      if_true, ne_eq, not_true]
    rw [if_neg (by omega)]
  · cases hmode with
    | inl h => rw [h]; rfl
    | inr h => rw [h]; rfl

/-- **The WPA element** is read as it was built for. -/
theorem parsesTo_wpa {wds : Bool} {mode wsec algo bufLen : Nat} {cap : UInt8 × UInt8}
    {e : Bytes × Nat} (he : buildWpa wds mode wsec algo (ieCaps wds cap) bufLen = some e)
    (hmode : mode = wpa ∨ mode = wpaPsk) :
    ParsesTo e.1 (builtCiphers wds wsec algo) mode := by
  refine @parsesTo_built _ _ _ _ _ _ _ _ _ ⟨8, wpaOui, wpaAkm2auth⟩ _ he rfl rfl (by decide)
    (fun m n hmin hmax htag hlen hhead => ?_) ?_
  · obtain ⟨hvalid, hlong⟩ := length_octet (h := wpaOui ++ [1, 1, 0]) hmin hmax hlen (by decide)
    have hoctets : m.Holds 2 ((wpaOui ++ [1]) ++ [1, 0]) := hhead
    rw [Mem.holds_append] at hoctets
    obtain ⟨houi, hversion⟩ := hoctets
    simp only [Mem.holds_cons] at hversion
    have hversion' : m.le16 6 = 1 := by
      rw [Mem.le16]
      exact (congrArg₂ (fun a b : UInt8 => a.toNat + b.toNat * 256) hversion.1 hversion.2.1).trans
        rfl
    have houi' : m.slice 2 4 = wpaOui ++ [1] := houi
    have hother : dot11MngWpaId ≠ dot11MngRsnId := by decide
    simp only [Nas.wpaIeHeader, hvalid, htag, hother, houi', hversion', Bool.not_true,
      Bool.false_eq_true, if_false, if_true, ne_eq, not_true]
    rw [if_neg (by omega)]
  · cases hmode with
    | inl h => rw [h]; rfl
    | inr h => rw [h]; rfl

/-! ## Every call -/

/-- **A result is right**: what is written fits the buffer, `*len` is the length of it, and for a
single mode the parser makes of an element what it was built for. -/
structure BuildRight (wsec mode bufLen : Nat) (b : BuiltIe) : Prop where
  room : b.octets.length ≤ bufLen
  len : b.len = b.octets.length
  parses : mode = wpa ∨ mode = wpaPsk ∨ mode = wpa2 ∨ mode = wpa2Psk →
    ∀ ie ∈ b.ies, ParsesTo ie wsec mode

/-- The octets that the checks ask for: all but the capabilities, and of two elements the second one
and two octets. -/
def roomAsked (wds : Bool) (mode staMode : Nat) : Nat :=
  match buildsRsn mode staMode, buildsWpa mode staMode with
  | false, false => 0
  | true, false => 20
  | false, true => 24
  | true, true => if wds then 20 else 26

/-- The octets that are written. -/
def roomTaken (wds : Bool) (mode staMode : Nat) : Nat :=
  match buildsRsn mode staMode, buildsWpa mode staMode with
  | false, false => 0
  | true, false => if wds then 20 else 22
  | false, true => if wds then 24 else 26
  | true, true => if wds then 20 else 48

section

variable {wds : Bool} {mode wsec algo bufLen staMode : Nat} {cap cap2 cap1 : UInt8 × UInt8}
  {e : Bytes × Nat}

theorem buildRsn_some (he : buildRsn wds mode wsec algo (ieCaps wds cap) bufLen = some e) :
    20 ≤ bufLen ∧ e.1.length = 20 + (ieCaps wds cap).length ∧ 2 + e.2 = e.1.length :=
  buildElement_some rfl (mcastSuite_length _ _ _ rfl) he

theorem buildWpa_some (he : buildWpa wds mode wsec algo (ieCaps wds cap) bufLen = some e) :
    24 ≤ bufLen ∧ e.1.length = 24 + (ieCaps wds cap).length ∧ 2 + e.2 = e.1.length :=
  buildElement_some rfl (mcastSuite_length _ _ _ rfl) he

theorem builds_single (hmode : mode = wpa ∨ mode = wpaPsk ∨ mode = wpa2 ∨ mode = wpa2Psk) :
    (buildsRsn mode staMode = true → mode = wpa2 ∨ mode = wpa2Psk) ∧
      (buildsWpa mode staMode = true → mode = wpa ∨ mode = wpaPsk) := by
  rcases hmode with rfl | rfl | rfl | rfl
  · exact ⟨fun h => absurd h (by simp [buildsRsn, checkWpa2, has, wpa, wpa2, wpa2Psk]),
      fun _ => .inl rfl⟩
  · exact ⟨fun h => absurd h (by simp [buildsRsn, checkWpa2, has, wpaPsk, wpa2, wpa2Psk]),
      fun _ => .inr rfl⟩
  · exact ⟨fun _ => .inl rfl, fun h => absurd h (by simp [buildsWpa, has, wpa, wpaPsk, wpa2])⟩
  · exact ⟨fun _ => .inr rfl, fun h => absurd h (by simp [buildsWpa, has, wpa, wpaPsk, wpa2Psk])⟩

theorem buildRsn_isSome (cap : UInt8 × UInt8) (h : 20 ≤ bufLen) :
    ∃ e, buildRsn wds mode wsec algo (ieCaps wds cap) bufLen = some e := by
  rw [buildRsn, buildElement_eq, if_neg (by simp only [List.length_cons, List.length_nil]; omega)]
  exact ⟨_, rfl⟩

theorem buildWpa_isSome (cap : UInt8 × UInt8) (h : 24 ≤ bufLen) :
    ∃ e, buildWpa wds mode wsec algo (ieCaps wds cap) bufLen = some e := by
  rw [buildWpa, buildElement_eq,
    if_neg (by simp only [List.length_append, List.length_cons, List.length_nil, wpaOui]; omega)]
  exact ⟨_, rfl⟩

/-- **With the room that is asked for, there is a result.** -/
theorem buildOwn_isSome (h : roomAsked wds mode staMode ≤ bufLen) :
    ∃ b, buildOwn wds mode wsec algo staMode cap2 cap1 bufLen = some b := by
  unfold roomAsked at h
  unfold buildOwn addWpa
  cases hrsn : buildsRsn mode staMode with
  | false =>
      cases hwpa : buildsWpa mode staMode with
      | false => exact ⟨_, rfl⟩
      | true =>
          simp only [hrsn, hwpa] at h
          obtain ⟨e, he⟩ := @buildWpa_isSome wds mode wsec algo bufLen cap1 h
          simp only [if_true, he, Option.map_some]
          exact ⟨_, rfl⟩
  | true =>
      have hfirst : 20 ≤ bufLen := by
        cases hwpa : buildsWpa mode staMode with
        | false => simpa only [hrsn, hwpa] using h
        | true =>
            simp only [hrsn, hwpa] at h
            split at h <;> omega
      obtain ⟨e, he⟩ := @buildRsn_isSome wds mode wsec algo bufLen cap2 hfirst
      simp only [if_true, he, Option.bind_some]
      cases wds with
      | true => exact ⟨_, rfl⟩
      | false =>
          cases hwpa : buildsWpa mode staMode with
          | false => exact ⟨_, rfl⟩
          | true =>
              simp only [hrsn, hwpa, Bool.false_eq_true, if_false] at h
              obtain ⟨e', he'⟩ := @buildWpa_isSome false mode wsec algo (bufLen - 2) cap1 (by omega)
              simp only [Bool.false_eq_true, if_false, if_true, he', Option.map_some]
              exact ⟨_, rfl⟩

theorem single_octets (ie : Bytes) (len : Nat) : (⟨[ie], len⟩ : BuiltIe).octets = ie :=
  List.flatten_singleton

/-- **What the result is**, apart from the room. -/
theorem buildOwn_some {b : BuiltIe}
    (hb : buildOwn wds mode wsec algo staMode cap2 cap1 bufLen = some b) :
    roomAsked wds mode staMode ≤ bufLen ∧ b.octets.length = roomTaken wds mode staMode ∧
    b.len = b.octets.length ∧
      (mode = wpa ∨ mode = wpaPsk ∨ mode = wpa2 ∨ mode = wpa2Psk →
        ∀ ie ∈ b.ies, ParsesTo ie (builtCiphers wds wsec algo) mode) := by
  unfold buildOwn addWpa at hb
  unfold roomAsked roomTaken
  have hsingle := @builds_single mode staMode
  cases hrsn : buildsRsn mode staMode with
  | false =>
      cases hwpa : buildsWpa mode staMode with
      | false =>
          simp only [hrsn, hwpa, Bool.false_eq_true, if_false, Option.some.injEq] at hb
          subst hb
          exact ⟨Nat.zero_le _, rfl, rfl, fun _ ie hie => by cases hie⟩
      | true =>
          simp only [hrsn, hwpa, Bool.false_eq_true, if_false, if_true, Option.map_eq_some_iff,
            List.nil_append, Nat.zero_add] at hb
          obtain ⟨e, he, rfl⟩ := hb
          obtain ⟨hroom, hlength, hlen⟩ := buildWpa_some he
          rw [single_octets]
          refine ⟨hroom, ?_, hlen, fun hmode ie hie => ?_⟩
          · rw [hlength, ieCaps_length]
            cases wds <;> rfl
          · rw [List.mem_singleton.mp hie]
            exact parsesTo_wpa he ((hsingle hmode).2 hwpa)
  | true =>
      simp only [hrsn, if_true, Option.bind_eq_some_iff] at hb
      obtain ⟨e, he, hb⟩ := hb
      obtain ⟨hroom, hlength, hlen⟩ := buildRsn_some he
      have hparse (hmode : mode = wpa ∨ mode = wpaPsk ∨ mode = wpa2 ∨ mode = wpa2Psk) :
          ParsesTo e.1 (builtCiphers wds wsec algo) mode := parsesTo_rsn he ((hsingle hmode).1 hrsn)
      rw [ieCaps_length] at hlength
      cases wds with
      | true =>
          simp only [if_true, Option.some.injEq] at hb hlength
          subst hb
          rw [single_octets]
          refine ⟨?_, ?_, hlen, fun hmode ie hie => ?_⟩
          · cases buildsWpa mode staMode with
            | false => exact hroom
            | true => exact hroom
          · rw [hlength]
            cases buildsWpa mode staMode <;> rfl
          · rw [List.mem_singleton.mp hie]
            exact hparse hmode
      | false =>
          simp only [Bool.false_eq_true, if_false] at hb hlength
          cases hwpa : buildsWpa mode staMode with
          | false =>
              simp only [hwpa, Bool.false_eq_true, if_false, Option.some.injEq] at hb
              subst hb
              rw [single_octets]
              refine ⟨hroom, hlength, hlen, fun hmode ie hie => ?_⟩
              rw [List.mem_singleton.mp hie]
              exact hparse hmode
          | true =>
              simp only [hwpa, if_true, Option.map_eq_some_iff] at hb
              obtain ⟨e', he', rfl⟩ := hb
              obtain ⟨hroom', hlength', hlen'⟩ := buildWpa_some he'
              rw [ieCaps_length] at hlength'
              have hoctets : (⟨[e.1] ++ [e'.1], 2 + e.2 + (2 + e'.2)⟩ : BuiltIe).octets =
                  e.1 ++ e'.1 := by
                simp [BuiltIe.octets]
              simp only [Bool.false_eq_true, if_false] at hlength' ⊢
              rw [hoctets, List.length_append]
              refine ⟨by omega, by omega, by omega, fun hmode ie hie => ?_⟩
              -- No single mode has both elements.
              have hfirst := (hsingle hmode).1 hrsn
              have hsecond := (hsingle hmode).2 hwpa
              rcases hfirst with rfl | rfl
              · rcases hsecond with h | h <;> cases h
              · rcases hsecond with h | h <;> cases h

/-- **Which element of the driver's is taken.** -/
theorem pickWpaIe_element (buf : Mem) (staMode bufLen n off : Nat) :
    pickWpaIe buf staMode bufLen n off = [] ∨
    ∃ o, pickWpaIe buf staMode bufLen n off = buf.slice o ((buf (o + 1)).toNat + 2) ∧
      (staMode = wpa ∨ staMode = wpaPsk → buf o ≠ dot11MngRsnId) ∧
      (staMode = wpa2 ∨ staMode = wpa2Psk → buf o = dot11MngRsnId) := by
  induction n generalizing off with
  | zero => exact .inl rfl
  | succ n ih =>
      unfold pickWpaIe
      dsimp only
      split_ifs with hzero hrsn hwpa hroom
      · exact .inl rfl
      · exact ih _
      · exact ih _
      · refine .inr ⟨off, rfl, fun hmode heq => hrsn ⟨heq, hmode⟩, fun hmode => ?_⟩
        by_contra hne
        exact hwpa ⟨hne, hmode⟩
      · exact .inl rfl

/-- What an authenticator hands over is an element of the driver's, of the kind that the station's
mode asks for. -/
def FromDriver (drv : Option Mem) (staMode : Nat) (ie : Bytes) : Prop :=
  ∃ buf o, drv = some buf ∧ ie = buf.slice o ((buf (o + 1)).toNat + 2) ∧
    (staMode = wpa ∨ staMode = wpaPsk → buf o ≠ dot11MngRsnId) ∧
    (staMode = wpa2 ∨ staMode = wpa2Psk → buf o = dot11MngRsnId)

theorem copyIe_right (drv : Option Mem) (staMode bufLen : Nat) :
    (copyIe drv staMode bufLen).octets.length ≤ bufLen ∧
      (copyIe drv staMode bufLen).len = (copyIe drv staMode bufLen).octets.length ∧
      ∀ ie ∈ (copyIe drv staMode bufLen).ies, FromDriver drv staMode ie := by
  cases drv with
  | none => exact ⟨Nat.zero_le _, rfl, fun ie hie => by cases hie⟩
  | some buf =>
      by_cases hmode : checkNas staMode = true
      · have hlength := pickWpaIe_length buf staMode bufLen 2 0
        have helement := pickWpaIe_element buf staMode bufLen 2 0
        simp only [copyIe, hmode, if_true, BuiltIe.octets]
        generalize pickWpaIe buf staMode bufLen 2 0 = ie at hlength helement ⊢
        by_cases hnil : ie = []
        · subst hnil
          exact ⟨Nat.zero_le _, rfl, fun ie hie => by cases hie⟩
        · rw [if_neg hnil, List.flatten_singleton]
          obtain ⟨o, ho⟩ := helement.resolve_left hnil
          refine ⟨hlength, rfl, fun ie' hie' => ?_⟩
          rw [List.mem_singleton.mp hie']
          exact ⟨buf, o, rfl, ho⟩
      · simp only [copyIe, hmode, if_false, if_true, Bool.false_eq_true]
        exact ⟨Nat.zero_le _, rfl, fun ie hie => by cases hie⟩

/-- **When all results are right.** On a WDS link, and where the buffer is too small for what is
asked for, there is nothing to be said; a supplicant's buffer has room for the capabilities as well,
and for both elements. An authenticator's results are always right. -/
theorem build_ie_iff (wds : Bool) (mode wsec algo staMode : Nat) (cap2 cap1 : UInt8 × UInt8)
    (bufLen : Nat) :
    ((∀ b, buildOwn wds mode wsec algo staMode cap2 cap1 bufLen = some b →
        BuildRight (builtCiphers wds wsec algo) mode bufLen b) ↔
      bufLen < roomAsked wds mode staMode ∨ roomTaken wds mode staMode ≤ bufLen) ∧
    ∀ drv, (copyIe drv staMode bufLen).octets.length ≤ bufLen ∧
      (copyIe drv staMode bufLen).len = (copyIe drv staMode bufLen).octets.length ∧
      ∀ ie ∈ (copyIe drv staMode bufLen).ies, FromDriver drv staMode ie := by
  refine ⟨⟨fun hall => ?_, fun hroom b hb => ?_⟩, fun drv => copyIe_right drv staMode bufLen⟩
  · by_contra hno
    obtain ⟨b, hb⟩ := @buildOwn_isSome wds mode wsec algo bufLen staMode cap2 cap1 (by omega)
    have hright := (hall b hb).room
    rw [(buildOwn_some hb).2.1] at hright
    omega
  · obtain ⟨hasked, htaken, hlen, hparses⟩ := buildOwn_some hb
    exact ⟨by omega, hlen, hparses⟩

end

/-- A supplicant with WPA-PSK and WPA2-PSK writes 48 octets into a buffer of 40, and one with
WPA2-PSK 22 octets into a buffer of 20. -/
theorem capabilities_overflow :
    (buildOwn false (wpaPsk ||| wpa2Psk) aesEnabled cryptoAlgoAesCcm (wpaPsk ||| wpa2Psk) (0, 0)
      (0, 0) 40).map
      (·.octets.length) = some 48 ∧
    (buildOwn false wpa2Psk aesEnabled cryptoAlgoAesCcm wpa2Psk (0, 0) (0, 0) 20).map
      (·.octets.length) = some 22 := by
  decide +kernel

end BroadcomWl.Nas.Element
