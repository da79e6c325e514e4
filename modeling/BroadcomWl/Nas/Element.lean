import BroadcomWl.Lib.Reader
import BroadcomWl.Nas.Wpa

/-!
# Reading WPA and RSN elements

`wpa_parse_ie` and `wpa_check_ie` octet by octet, as programs that read from the start of an
element. In memory they do what the functions of the same names do that the rest of the development
uses (`run_wpaParseIe`, `run_wpaCheckIe`); as programs they also say where they read.

Both read the header of the element inside it (`inside_wpaIeHeader`). What they read then follows
the remaining length, a signed number that goes down by what a list should take up, and not by what
there is. -/

namespace BroadcomWl.Nas.Element

open BroadcomWl.Lib (Reader)
open BroadcomWl.Lib.Reader

/-! ## The code -/

/-- The header of an RSN element. -/
def rsnHeader : Reader (Option IeHeader) := do
  let length ← octet 1
  if length.toNat < 2 then pure none else
    let version ← le16 2
    if version ≠ 1 then pure none else pure (some ⟨4, wpa2Oui, wpa2Akm2auth⟩)

/-- The header of a WPA element. -/
def wpaHeader : Reader (Option IeHeader) := do
  let length ← octet 1
  if length.toNat < 6 then pure none else
    let oui ← octets 2 4
    if oui ≠ wpaOui ++ [1] then pure none else
      let version ← le16 6
      if version ≠ 1 then pure none else pure (some ⟨8, wpaOui, wpaAkm2auth⟩)

/-- `bcm_valid_tlv` and the type specific header. -/
def wpaIeHeader (ieLen : Int) : Reader (Option IeHeader) :=
  if ieLen < 2 then pure none else do
    let length ← octet 1
    if ieLen < 2 + length.toNat then pure none else
      let type ← octet 0
      if type = dot11MngRsnId then rsnHeader
      else if type = dot11MngWpaId then wpaHeader
      else pure none

/-- The number of a suite, if it has the element's OUI. -/
def suiteType (oui : Bytes) (off : Nat) : Reader (Option Nat) := do
  let o ← octets off 3
  if o = oui then
    let type ← octet (off + 3)
    pure (some type.toNat)
  else pure none

/-- The bits of a suite, or none. -/
def suiteBits (bits : Nat → Nat) (type : Option Nat) : Nat := (type.map bits).getD 0

/-- The loop over the PMKIDs. -/
def pmkidListed (pmkid : Bytes) (off : Nat) : Nat → Int → Reader Bool
  | 0, _ => pure false
  | count + 1, len =>
    if len < 16 then pure false else do
      let listed ← octets off 16
      if listed = pmkid then pure true else pmkidListed pmkid (off + 16) count (len - 16)

/-- `wpa_parse_ie` from the PMKIDs on. -/
def parsePmkids (sta : Option Bytes) (mode off : Nat) (len : Int) : Reader Int :=
  match sta with
  | none => pure 0
  | some pmkid => do
    let type ← octet 0
    if type = dot11MngRsnId ∧ 2 ≤ len ∧ mode = wpa2 then
      let count ← le16 off
      let found ← pmkidListed pmkid (off + 2) count (len - 2)
      pure (if found then 1 else -1)
    else pure 0

/-- `wpa_parse_ie` from the capabilities on. -/
def parseCap (sta : Option Bytes) (wsec mode : Nat) (akm : Bool) (off : Nat) (len : Int) :
    Reader (Option ParsedIe) :=
  if 2 ≤ len then do
    let cap0 ← octet off
    let cap1 ← octet (off + 1)
    let pmkc ← parsePmkids sta mode (off + 2) (len - 2)
    pure (some ⟨wsec, mode, akm, (cap0, cap1), pmkc⟩)
  else do
    let pmkc ← parsePmkids sta mode (off + 2) len
    pure (some ⟨wsec, mode, akm, (0, 0), pmkc⟩)

/-- `wpa_parse_ie` from the key management suites on. -/
def parseMgmt (h : IeHeader) (sta : Option Bytes) (wsec off : Nat) (len : Int) :
    Reader (Option ParsedIe) :=
  if 2 ≤ len then do
    let count ← le16 off
    if count ≠ 1 then pure none else
      let type ← suiteType h.oui (off + 2)
      parseCap sta wsec (suiteBits (fun t => wpaAuth2mode (h.akm2auth t)) type) type.isSome
        (off + 6) (len - 6)
  else parseCap sta wsec 0 false (off + 6) len

/-- `wpa_parse_ie` from the unicast suites on. -/
def parseUcast (h : IeHeader) (sta : Option Bytes) (wsec off : Nat) (len : Int) :
    Reader (Option ParsedIe) :=
  if 2 ≤ len then do
    let count ← le16 off
    if count ≠ 1 then pure none else
      let type ← suiteType h.oui (off + 2)
      parseMgmt h sta (wsec ||| suiteBits wpaCipher2wsec type) (off + 6) (len - 6)
  else parseMgmt h sta wsec (off + 6) len

/-- `wpa_parse_ie` from the multicast suite on. -/
def parseMcast (h : IeHeader) (sta : Option Bytes) (len : Int) : Reader (Option ParsedIe) :=
  if 4 ≤ len then do
    let type ← suiteType h.oui h.suites
    parseUcast h sta (suiteBits wpaCipher2wsec type) (h.suites + 4) (len - 4)
  else parseUcast h sta 0 (h.suites + 4) len

/-- `wpa_parse_ie`. -/
def wpaParseIe (ieLen : Int) (sta : Option Bytes) : Reader (Option ParsedIe) := do
  let header ← wpaIeHeader ieLen
  match header with
  | none => pure none
  | some h => parseMcast h sta (ieLen - h.suites)

/-- The loop of `wpa_check_ie` over a suite list: what is left of the mask, and of the length. -/
def checkSuites (oui : Bytes) (bits : Nat → Nat) : Nat → Nat → Int → Nat → Reader (Nat × Int)
  | 0, _, len, mask => pure (mask, len)
  | count + 1, off, len, mask =>
    if len < 4 then pure (mask, len) else do
      let type ← suiteType oui off
      checkSuites oui bits count (off + 4) (len - 4) (mask &&& (0xffffffff ^^^ suiteBits bits type))

/-- `wpa_check_ie` from the capabilities on; the sum is one of 32 bits. -/
def checkCap (wsec mode mgmt : Nat) (len : Int) : Reader (Option (Nat × Option (UInt8 × UInt8))) :=
  if 2 ≤ len then do
    let cap0 ← octet (mgmt + 6)
    let cap1 ← octet (mgmt + 7)
    pure (some ((wsec + mode) % 2 ^ 32, some (cap0, cap1)))
  else pure (some ((wsec + mode) % 2 ^ 32, none))

/-- `wpa_check_ie` from the key management suites on. -/
def checkMgmt (h : IeHeader) (wsec mode mgmt : Nat) (len : Int) :
    Reader (Option (Nat × Option (UInt8 × UInt8))) :=
  if 2 ≤ len then do
    let count ← le16 mgmt
    let r ← checkSuites h.oui (fun t => wpaAuth2mode (h.akm2auth t)) count (mgmt + 2) (len - 2) mode
    checkCap wsec r.1 mgmt r.2
  else checkCap wsec mode mgmt len

/-- `wpa_check_ie` from the unicast suites on. -/
def checkUcast (h : IeHeader) (wsec mode off : Nat) (len : Int) :
    Reader (Option (Nat × Option (UInt8 × UInt8))) :=
  if 2 ≤ len then do
    let count ← le16 off
    let r ← checkSuites h.oui wpaCipher2wsec count (off + 2) (len - 2) wsec
    checkMgmt h r.1 mode (off + 2 + 4 * count) r.2
  else checkMgmt h wsec mode (off + 2) len

/-- `wpa_check_ie` from the multicast suite on. -/
def checkMcast (h : IeHeader) (wsec mode : Nat) (len : Int) :
    Reader (Option (Nat × Option (UInt8 × UInt8))) :=
  if 4 ≤ len then do
    let type ← suiteType h.oui h.suites
    checkUcast h (wsec &&& (0xffffffff ^^^ suiteBits wpaCipher2wsec type)) mode
      (h.suites + 4) (len - 4)
  else checkUcast h wsec mode (h.suites + 4) len

/-- `wpa_check_ie`: what it returns, or `none` for -1, and the capabilities that it stores. -/
def wpaCheckIe (ieLen : Int) (wsec mode : Nat) :
    Reader (Option (Nat × Option (UInt8 × UInt8))) := do
  let header ← wpaIeHeader ieLen
  match header with
  | none => pure none
  | some h => checkMcast h wsec mode (ieLen - h.suites)

/-! ## In memory -/

section

variable (m : Mem)

theorem slice_eq (off n : Nat) : Reader.slice m off n = m.slice off n := by
  induction n generalizing off with
  | zero => rfl
  | succ n ih => rw [Reader.slice, Mem.slice, ih]

theorem run_le16_eq (off : Nat) : run m (le16 off) = m.le16 off := run_le16 off

theorem run_wpaIeHeader (ieLen : Int) :
    run m (wpaIeHeader ieLen) = Nas.wpaIeHeader m ieLen.toNat := by
  unfold wpaIeHeader Nas.wpaIeHeader bcmValidTlv
  by_cases hshort : ieLen < 2
  · have hnat : ¬2 ≤ ieLen.toNat := by omega
    simp [hshort, hnat]
  · have hnat : 2 ≤ ieLen.toNat := by omega
    by_cases hlength : ieLen < 2 + (m 1).toNat
    · have hlengthNat : ¬2 + (m 1).toNat ≤ ieLen.toNat := by omega
      simp [hshort, hlength, hlengthNat]
    · have hlengthNat : 2 + (m 1).toNat ≤ ieLen.toNat := by omega
      simp [hshort, hnat, hlength, hlengthNat, rsnHeader, wpaHeader, slice_eq, -run_le16,
        run_le16_eq]

/-- The number of a suite in memory. -/
def suiteAt (oui : Bytes) (off : Nat) : Option Nat :=
  if m.slice off 3 = oui then some (m (off + 3)).toNat else none

@[simp] theorem run_suiteType (oui : Bytes) (off : Nat) :
    run m (suiteType oui off) = suiteAt m oui off := by
  simp only [suiteType, run_bind, run_octets, slice_eq, run_ite, run_octet, run_pure, suiteAt]

theorem suiteBits_suiteAt (bits : Nat → Nat) (oui : Bytes) (off : Nat) :
    suiteBits bits (suiteAt m oui off) = if m.slice off 3 = oui then bits (m (off + 3)).toNat
      else 0 := by
  unfold suiteAt suiteBits
  split <;> rfl

theorem suiteAt_isSome (oui : Bytes) (off : Nat) :
    (suiteAt m oui off).isSome = decide (m.slice off 3 = oui) := by
  unfold suiteAt
  split
  · rename_i heq
    simp [heq]
  · rename_i hne
    simp [hne]

theorem run_pmkidListed (pmkid : Bytes) (off count : Nat) (len : Int) :
    run m (pmkidListed pmkid off count len) = Nas.pmkidListed m pmkid off count len := by
  induction count generalizing off len with
  | zero => rfl
  | succ count ih =>
      simp only [pmkidListed, Nas.pmkidListed, run_ite, run_bind, run_octets, slice_eq,
        run_pure, ih]

theorem run_parsePmkids (sta : Option Bytes) (mode off : Nat) (len : Int) :
    run m (parsePmkids sta mode off len) =
      match sta with
      | none => 0
      | some pmkid =>
        if m 0 = dot11MngRsnId ∧ 2 ≤ len ∧ mode = wpa2 then
          if Nas.pmkidListed m pmkid (off + 2) (m.le16 off) (len - 2) then 1 else -1
        else 0 := by
  cases sta with
  | none => rfl
  | some pmkid =>
      simp only [parsePmkids, run_bind, run_octet, run_ite, run_le16_eq, run_pmkidListed, run_pure]

theorem lor_ite_zero {c : Prop} [Decidable c] (a b : Nat) :
    (a ||| if c then b else 0) = if c then a ||| b else a := by
  split
  · rfl
  · exact Nat.or_zero a

/-- **The program is the function.** -/
theorem run_wpaParseIe (ieLen : Int) (sta : Option Bytes) :
    run m (wpaParseIe ieLen sta) = Nas.wpaParseIe m ieLen.toNat sta := by
  rw [wpaParseIe, run_bind, run_wpaIeHeader, Nas.wpaParseIe]
  cases hh : Nas.wpaIeHeader m ieLen.toNat with
  | none => rfl
  | some h =>
      have hint : (ieLen.toNat : Int) = ieLen := by
        have hlen := wpaIeHeader_suites_le hh
        omega
      simp only [parseMcast, parseUcast, parseMgmt, parseCap, run_bind, run_ite, run_le16_eq,
        run_suiteType, run_octet, run_pure, run_parsePmkids, suiteBits_suiteAt, suiteAt_isSome,
        hint, Option.bind_eq_bind, Option.bind_some]
      generalize ieLen - (h.suites : Int) = len
      by_cases hmcast : 4 ≤ len
      · by_cases hucast : 2 ≤ len - 4
        · by_cases hone : m.le16 (h.suites + 4) = 1
          · by_cases hmgmt : 2 ≤ len - 4 - 6
            · by_cases hone' : m.le16 (h.suites + 4 + 6) = 1
              · by_cases hcap : 2 ≤ len - 4 - 6 - 6
                · cases sta with
                  | none => simp [hmcast, hucast, hone, hmgmt, hone', hcap, lor_ite_zero]
                  | some pmkid =>
                      simp only [hmcast, hucast, hone, hmgmt, hone', hcap, lor_ite_zero, ne_eq,
                        not_true, and_false, if_false, if_true, true_and, decide_eq_true_eq]
                      split_ifs <;> rfl
                · cases sta <;> simp [hmcast, hucast, hone, hmgmt, hone', hcap, lor_ite_zero]
              · simp [hmcast, hucast, hone, hmgmt, hone']
            · cases sta <;> simp [hmcast, hucast, hone, hmgmt, lor_ite_zero]
          · simp [hmcast, hucast, hone]
        · cases sta <;> simp [hmcast, hucast]
      · by_cases hucast : 2 ≤ len
        · by_cases hone : m.le16 (h.suites + 4) = 1
          · have hmgmt : ¬2 ≤ len - 6 := by omega
            cases sta <;> simp [hmcast, hucast, hone, hmgmt, lor_ite_zero]
          · simp [hmcast, hucast, hone]
        · cases sta <;> simp [hmcast, hucast]

theorem run_checkSuites (oui : Bytes) (bits : Nat → Nat) (count off : Nat) (len : Int)
    (mask : Nat) :
    run m (checkSuites oui bits count off len mask) =
      Nas.checkSuites m oui bits count off len mask := by
  induction count generalizing off len mask with
  | zero => rfl
  | succ count ih =>
      simp only [checkSuites, Nas.checkSuites, run_ite, run_bind, run_pure, run_suiteType,
        suiteBits_suiteAt, ih]

theorem and_allBits {x : Nat} (h : x < 2 ^ 32) : x &&& 0xffffffff = x := by
  rw [show (0xffffffff : Nat) = 2 ^ 32 - 1 by rfl, Nat.and_two_pow_sub_one_eq_mod,
    Nat.mod_eq_of_lt h]

theorem run_wpaCheckIe (ieLen : Int) {wsec : Nat} (hwsec : wsec < 2 ^ 32) (mode : Nat) :
    run m (wpaCheckIe ieLen wsec mode) =
      (Nas.wpaCheckIe m ieLen.toNat wsec mode).map fun r => (r.1 % 2 ^ 32, r.2) := by
  rw [wpaCheckIe, run_bind, run_wpaIeHeader, Nas.wpaCheckIe]
  cases hh : Nas.wpaIeHeader m ieLen.toNat with
  | none => rfl
  | some h =>
      have hint : (ieLen.toNat : Int) = ieLen := by
        have hlen := wpaIeHeader_suites_le hh
        omega
      have hall := and_allBits hwsec
      simp only [checkMcast, checkUcast, checkMgmt, checkCap, run_bind, run_ite, run_le16_eq,
        run_suiteType, run_octet, run_pure, run_checkSuites, suiteBits_suiteAt, hint,
        Option.bind_eq_bind, Option.bind_some]
      generalize ieLen - (h.suites : Int) = len
      by_cases hmcast : 4 ≤ len
      · by_cases hucast : 2 ≤ len - 4
        · simp only [hmcast, hucast, if_true, true_and]
          split_ifs <;> rfl
        · have hmgmt : ¬2 ≤ len - 4 := hucast
          simp [hmcast, hucast]
      · have hgone : (wsec &&& (0xffffffff ^^^ 0)) = wsec := by rw [Nat.xor_zero, hall]
        by_cases hucast : 2 ≤ len
        · simp only [hmcast, hucast, if_true, if_false, false_and, hgone]
          split_ifs <;> rfl
        · simp [hmcast, hucast, hall]

end

end BroadcomWl.Nas.Element
