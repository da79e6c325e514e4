import BroadcomWl.Nas.RadiusRequest

/-!
# The walk over a RADIUS response

The attribute loop of `radius_dispatch`, octet by octet. The loop keeps a place in the packet and
the number of octets left; a vendor-specific attribute moves both to its first sub-attribute, and
the next pass begins behind that, inside the vendor-specific attribute if there are more.

`radiusParse` is the sequence of attributes that the loop comes across, for `radiusDispatch` to act
on.

**`parse_passes`.** On a packet whose vendor-specific attributes consist of sub-attributes, the loop
takes the later sub-attributes for attributes of the packet. -/

namespace BroadcomWl.Nas

open BroadcomWl.Lib.Tlv

/-! ## The packet -/

def radiusAccessAccept : UInt8 := 2
def radiusAccessReject : UInt8 := 3
def radiusAccessChallenge : UInt8 := 11

def rdTpVendorSpecific : UInt8 := 26
def rdTpSessionTimeout : UInt8 := 27

def rdVendorMicrosoft : Nat := 311
def rdMsMppeSend : UInt8 := 16
def rdMsMppeRecv : UInt8 := 17

def rdVendorWfa : Nat := 40808
def rdVendorWfaSrValue : UInt8 := 1
def rdVendorWfaDarValue : UInt8 := 4
def rdVendorWfaSiuValue : UInt8 := 5

namespace Mem

def u32 (m : Mem) (off : Nat) : Nat := m.u16 off * 65536 + m.u16 (off + 2)

end Mem

/-- What a response is checked and decrypted with: the hash functions, the shared secret, and the
authenticator of the request. -/
structure RadiusKeys where
  md5 : Bytes → Bytes
  hmacMd5 : Bytes → Bytes → Bytes
  secret : Bytes
  vector : Bytes

/-- Where the loop stands: the place in the packet, the octets left, and the length of the value. -/
structure Cursor where
  cur : Nat
  left : Int
  length : Int

/-! ## MPPE keys -/

/-- The loop of `mppe_crypt` over `n` blocks; `c` is the last cipher block, behind which the salt
stands at the first pass. -/
def mppeBlocks (md5 : Bytes → Bytes) (key : Bytes) (encrypt : Bool) :
    Nat → Bytes → Bytes → Bytes → Bytes
  | 0, _, _, text => text
  | n + 1, c, salt, text =>
    let b := md5 (key ++ c ++ salt)
    let p := (text.take 16).zipWith (· ^^^ ·) b
    p ++ mppeBlocks md5 key encrypt n (if encrypt then p else text.take 16) [] (text.drop 16)

/-- `mppe_crypt`. -/
def mppeCrypt (md5 : Bytes → Bytes) (salt text key vector : Bytes) (encrypt : Bool) : Bytes :=
  mppeBlocks md5 key encrypt (text.length / 16) vector salt text

/-! ## One pass of the loop -/

section Pass

variable (k : RadiusKeys) (m : Mem) (total : Nat) (code : RadiusCode)

/-- The packet with the authenticator of the request, and without the checksum at `cur`. -/
def checkedMem (cur : Nat) : Mem := fun i =>
  if cur ≤ i ∧ i < cur + 16 then 0 else if 4 ≤ i ∧ i < 20 then k.vector.getD (i - 4) 0 else m i

/-- The checksum at `cur` is that of the packet. -/
def macValid (cur : Nat) : Bool :=
  k.hmacMd5 ((checkedMem k m cur).slice 0 total) k.secret == m.slice cur 16

/-- A Microsoft attribute. -/
def mppeAttr (type : UInt8) (p : Cursor) : RadiusAttr :=
  if type = rdMsMppeSend ∨ type = rdMsMppeRecv then
    if code ≠ .accept then .other
    -- Key length (minus salt) must be a multiple of 16 and greater than 32.
    else if (p.length - 2) % 16 ≠ 0 ∨ p.length - 2 ≤ 32 then .bad
    else
      let text := m.slice (p.cur + 2) (p.length - 2).toNat
      let plain := mppeCrypt k.md5 (m.slice p.cur 2) text k.secret k.vector false
      if type = rdMsMppeSend then .mppeSend plain else .mppeRecv plain
  else .other

/-- The Passpoint attributes that ask for a notification, with the number of octets in front of the
URL. -/
def wfaKind (type : UInt8) : Option (WnmKind × Nat) :=
  if type = rdVendorWfaSrValue then some (.subscriptionRemediation, 1)
  else if type = rdVendorWfaDarValue then some (.deauthImminent, 3)
  else if type = rdVendorWfaSiuValue then some (.bssTransition, 1)
  else none

/-- A Passpoint attribute: the octets in front of the URL are skipped. -/
def wfaAttr (type : UInt8) (p : Cursor) : RadiusAttr × Cursor :=
  match wfaKind type with
  | none => (.other, p)
  | some (kind, n) =>
    if code ≠ .accept then (.other, p)
    else
      let q : Cursor := ⟨p.cur + n, p.left - n, p.length - n⟩
      if q.left < q.length then (.bad, q) else (.wnm kind, q)

/-- A vendor-specific attribute. -/
def vendorAttr (p : Cursor) : RadiusAttr × Cursor :=
  if p.length < 6 then (.bad, p)
  else
    let vendor := m.u32 p.cur
    let type := m (p.cur + 4)
    let q : Cursor := ⟨p.cur + 6, p.left - 6, (m (p.cur + 5)).toNat - 2⟩
    if q.left < q.length then (.bad, q)
    else if vendor = rdVendorMicrosoft then (mppeAttr k m code type q, q)
    else if vendor = rdVendorWfa then wfaAttr code type q
    else (.other, q)

/-- The switch over the types. -/
def radiusAttr (type : UInt8) (p : Cursor) : RadiusAttr × Cursor :=
  if type = rdTpMessageAuthenticator then
    (if p.length < 16 then .bad else .messageAuthenticator (macValid k m total p.cur), p)
  else if type = rdTpState then (.state (m.slice p.cur p.length.toNat), p)
  else if type = rdTpEapMessage then
    (.eapMessage (m p.cur) (m (p.cur + 1)) (m.slice p.cur p.length.toNat), p)
  else if type = rdTpVendorSpecific then vendorAttr k m code p
  else if type = rdTpSessionTimeout then
    (if code ≠ .accept then .other else if p.length < 4 then .bad
      else .sessionTimeout (m.u32 p.cur), p)
  else (.other, p)

/-- Don't go on looking if something already went wrong. -/
def RadiusAttr.ends : RadiusAttr → Bool
  | .messageAuthenticator valid => !valid
  | .bad => true
  | _ => false

/-- The loop. An attribute that says it is shorter than its header may keep it from ending; there is
no result then, nor without fuel. -/
def radiusParse : Nat → Nat → Int → Option (List RadiusAttr)
  | 0, _, _ => none
  | fuel + 1, cur, left =>
    if left < 2 then some []
    else
      let p : Cursor := ⟨cur + 2, left - 2, (m (cur + 1)).toNat - 2⟩
      if p.length < 0 then none
      else if p.left < p.length then some []
      else
        let (a, q) := radiusAttr k m total code (m cur) p
        if a.ends then some [a]
        else (radiusParse fuel (q.cur + q.length).toNat (q.left - q.length)).map (a :: ·)

end Pass

def radiusCode (code : UInt8) : RadiusCode :=
  if code = radiusAccessAccept then .accept
  else if code = radiusAccessReject then .reject
  else if code = radiusAccessChallenge then .challenge else .other

/-- What `radius_dispatch` reads from a packet; its length field counts the header. -/
def parseResponse (k : RadiusKeys) (m : Mem) : Option RadiusResponse :=
  let total := m.u16 2
  (radiusParse k m total (radiusCode (m 0)) (total + 1) radiusHeaderLen
    (total - radiusHeaderLen)).map
    fun attrs => ⟨m 1, radiusCode (m 0), attrs⟩

/-! ## Packets as the loop sees them -/

/-- The value of an EAP message. -/
def RadiusAttr.eapValue : RadiusAttr → Option Bytes
  | .eapMessage _ _ v => some v
  | _ => none

/-- The fragment of the EAP message that an attribute is. -/
def eapFragment (a : Attr) : Option Bytes := if a.1 = rdTpEapMessage then some a.2 else none

/-- What one pass of the loop goes over: an attribute; or the header of a vendor-specific one with
this length octet, together with its first sub-attribute. -/
inductive Pass
  | plain (a : Attr)
  | vendor (length : UInt8) (id : Bytes) (first : Attr)

namespace Pass

def octets : Pass → Bytes
  | plain a => encode a
  | vendor length id first => rdTpVendorSpecific :: length :: (id ++ encode first)

/-- What is taken for a fragment of the EAP message. -/
def fragment : Pass → Option Bytes
  | plain a => eapFragment a
  | vendor _ _ _ => none

/-- The pass can be made when so many octets follow. -/
def Ok (after : Nat) : Pass → Prop
  | plain a => Fits a ∧ (a.1 = rdTpVendorSpecific → a.2.length < 6)
  | vendor length id first => id.length = 4 ∧ Fits first ∧ 8 ≤ length.toNat
      ∧ length.toNat ≤ 8 + first.2.length + after

end Pass

/-- Every pass can be made. -/
def Passable : List Pass → Prop
  | [] => True
  | p :: ps => p.Ok (ps.flatMap Pass.octets).length ∧ Passable ps

section Parse

variable {k : RadiusKeys} {m : Mem} {total : Nat} {code : RadiusCode}

/-- A pass ends the loop, or goes to the end of what it goes over. -/
def Passes (x : RadiusAttr × Cursor) (cur : Int) (left : Int) (fragment : Option Bytes) : Prop :=
  x.1.ends = true
    ∨ (x.2.cur + x.2.length = cur ∧ x.2.left - x.2.length = left ∧ x.1.eapValue = fragment)

theorem mppeAttr_eapValue (type : UInt8) (p : Cursor) :
    (mppeAttr k m code type p).eapValue = none := by
  unfold mppeAttr
  dsimp only
  split_ifs <;> rfl

variable (code) in
theorem wfaAttr_passes (type : UInt8) (p : Cursor) :
    Passes (wfaAttr code type p) (p.cur + p.length) (p.left - p.length) none := by
  unfold wfaAttr
  cases wfaKind type with
  | none => exact .inr ⟨rfl, rfl, rfl⟩
  | some x =>
      dsimp only
      by_cases hcode : code ≠ .accept
      · rw [if_pos hcode]
        exact .inr ⟨rfl, rfl, rfl⟩
      · rw [if_neg hcode]
        by_cases hlen : p.left - x.2 < p.length - x.2
        · rw [if_pos hlen]
          exact .inl rfl
        · rw [if_neg hlen]
          refine .inr ⟨?_, ?_, rfl⟩
          · dsimp only
            push_cast
            omega
          · dsimp only
            omega

variable (code) in
theorem vendorAttr_passes {p : Cursor} {n : Nat} (hlen : 6 ≤ p.length)
    (hn : (m (p.cur + 5)).toNat = 2 + n) (hleft : 6 + n ≤ p.left) :
    Passes (vendorAttr k m code p) (p.cur + 6 + n) (p.left - 6 - n) none := by
  unfold vendorAttr
  rw [if_neg (by omega)]
  dsimp only
  rw [hn, if_neg (by push_cast; omega)]
  split_ifs with hms hwfa
  · refine .inr ⟨?_, ?_, mppeAttr_eapValue _ _⟩
    · dsimp only
      push_cast
      omega
    · dsimp only
      push_cast
      omega
  · have h := wfaAttr_passes code (m (p.cur + 4)) ⟨p.cur + 6, p.left - 6, (2 + n : Nat) - 2⟩
    rcases h with h | ⟨hcur, hl, hv⟩
    · exact .inl h
    · refine .inr ⟨hcur.trans ?_, hl.trans ?_, hv⟩
      · push_cast
        omega
      · push_cast
        omega
  · refine .inr ⟨?_, ?_, rfl⟩
    · dsimp only
      push_cast
      omega
    · dsimp only
      push_cast
      omega

variable (total code) in
theorem radiusAttr_passes (type : UInt8) {p : Cursor} {v : Bytes} (hlen : p.length = v.length)
    (hv : m.Holds p.cur v) (hvendor : type = rdTpVendorSpecific → v.length < 6) :
    Passes (radiusAttr k m total code type p) (p.cur + v.length) (p.left - v.length)
      (if type = rdTpEapMessage then some v else none) := by
  -- A pass that leaves the cursor alone goes to the end of the value.
  have hstay : ∀ (a : RadiusAttr) (o : Option Bytes), a.ends = true ∨ a.eapValue = o →
      Passes (a, p) (p.cur + v.length) (p.left - v.length) o := by
    intro a o ha
    rcases ha with ha | ha
    · exact .inl ha
    · refine .inr ⟨?_, ?_, ha⟩
      · dsimp only
        rw [hlen]
      · dsimp only
        rw [hlen]
  unfold radiusAttr
  by_cases hmac : type = rdTpMessageAuthenticator
  · subst hmac
    rw [if_pos rfl, if_neg (show ¬rdTpMessageAuthenticator = rdTpEapMessage by decide)]
    refine hstay _ _ ?_
    split_ifs
    · exact .inl rfl
    · exact .inr rfl
  rw [if_neg hmac]
  by_cases hstate : type = rdTpState
  · subst hstate
    rw [if_pos rfl, if_neg (show ¬rdTpState = rdTpEapMessage by decide)]
    exact hstay _ _ (.inr rfl)
  rw [if_neg hstate]
  by_cases heap : type = rdTpEapMessage
  · rw [if_pos heap, if_pos heap, hlen]
    refine hstay _ _ (.inr ?_)
    exact congrArg some hv
  rw [if_neg heap, if_neg heap]
  by_cases hvs : type = rdTpVendorSpecific
  · have hshort : p.length < 6 := by
      have := hvendor hvs
      omega
    rw [if_pos hvs]
    unfold vendorAttr
    rw [if_pos hshort]
    exact .inl rfl
  rw [if_neg hvs]
  split_ifs
  · exact hstay _ _ (.inr rfl)
  · exact hstay _ _ (.inl rfl)
  · exact hstay _ _ (.inr rfl)
  · exact hstay _ _ (.inr rfl)

variable (total code) in
/-- **The loop** over a packet that consists of passes: it is ended, or it goes over all of them. -/
theorem parse_passes (ps : List Pass) : ∀ (fuel cur : Nat) (left : Int), Passable ps →
    m.Holds cur (ps.flatMap Pass.octets) → left = (ps.flatMap Pass.octets).length →
    ps.length < fuel →
    ∃ l, radiusParse k m total code fuel cur left = some l
      ∧ ((∃ a ∈ l, a.ends = true) ∨
        l.filterMap RadiusAttr.eapValue = ps.filterMap Pass.fragment) := by
  induction ps with
  | nil =>
      intro fuel cur left _ _ hleft hfuel
      obtain ⟨n, rfl⟩ := Nat.exists_eq_succ_of_ne_zero (Nat.ne_of_gt hfuel)
      refine ⟨[], ?_, .inr rfl⟩
      rw [radiusParse, if_pos (by simp [hleft])]
  | cons p ps ih =>
      intro fuel cur left hok hm hleft hfuel
      obtain ⟨n, rfl⟩ := Nat.exists_eq_succ_of_ne_zero (Nat.ne_of_gt (Nat.zero_lt_of_lt hfuel))
      rw [List.flatMap_cons] at hm hleft
      obtain ⟨hp, hps⟩ := (Mem.holds_append ..).mp hm
      rw [List.length_append] at hleft
      -- What a pass does that is not the last one.
      have hstep : ∀ (x : RadiusAttr × Cursor),
          Passes x (cur + p.octets.length) (left - p.octets.length)
          p.fragment → ∃ l, (if x.1.ends then some [x.1] else (radiusParse k m total code n
            (x.2.cur + x.2.length).toNat (x.2.left - x.2.length)).map (x.1 :: ·)) = some l
          ∧ ((∃ a ∈ l, a.ends = true)
            ∨ l.filterMap RadiusAttr.eapValue = (p :: ps).filterMap Pass.fragment) := by
        intro x hx
        by_cases hends : x.1.ends = true
        · exact ⟨[x.1], if_pos hends, .inl ⟨x.1, by simp, hends⟩⟩
        · obtain ⟨hcur, hl, hv⟩ := hx.resolve_left hends
          obtain ⟨l, hpl, hrest⟩ := ih n (cur + p.octets.length) (left - p.octets.length)
            hok.2 hps (by omega) (by simpa using hfuel)
          refine ⟨x.1 :: l, ?_, ?_⟩
          · rw [if_neg hends, hcur, hl]
            have hnat : ((cur : Int) + p.octets.length).toNat = cur + p.octets.length := by omega
            rw [hnat, hpl]
            rfl
          · rcases hrest with ⟨a, ha, hae⟩ | hrest
            · exact .inl ⟨a, by simp [ha], hae⟩
            · refine .inr ?_
              rw [List.filterMap_cons, List.filterMap_cons, hv, hrest]
      unfold radiusParse
      cases p with
      | plain a =>
          have hoctets : (Pass.plain a).octets.length = 2 + a.2.length := encode_length a
          obtain ⟨hfits, hvendor⟩ := hok.1
          obtain ⟨htype, hp⟩ := (Mem.holds_cons ..).mp hp
          obtain ⟨hlen, hvalue⟩ := (Mem.holds_cons ..).mp hp
          rw [hoctets] at hleft hstep
          have hnat : (m (cur + 1)).toNat = 2 + a.2.length := by
            rw [hlen, hfits.length_octet]
          rw [if_neg (by omega)]
          dsimp only
          rw [hnat, if_neg (by omega), if_neg (by omega), htype]
          refine hstep _ ?_
          have h := radiusAttr_passes (k := k) (m := m) total code a.1
            (p := ⟨cur + 2, left - 2, ((2 + a.2.length : Nat) : Int) - 2⟩) (v := a.2)
              (by push_cast; omega)
            hvalue hvendor
          rcases h with h | ⟨hcur, hl, hv⟩
          · exact .inl h
          · refine .inr ⟨hcur.trans ?_, hl.trans ?_, hv⟩
            · push_cast
              omega
            · push_cast
              omega
      | vendor length id first =>
          have hoctets : (Pass.vendor length id first).octets.length = 8 + first.2.length := by
            have := hok.1.1
            simp only [Pass.octets, List.length_cons, List.length_append, encode_length]
            omega
          obtain ⟨hid, hfits, hle, hroom⟩ := hok.1
          obtain ⟨htype, hp⟩ := (Mem.holds_cons ..).mp hp
          obtain ⟨hlen, hp⟩ := (Mem.holds_cons ..).mp hp
          obtain ⟨-, hfirst⟩ := (Mem.holds_append ..).mp hp
          obtain ⟨-, hfirst⟩ := (Mem.holds_cons ..).mp hfirst
          obtain ⟨hsub, -⟩ := (Mem.holds_cons ..).mp hfirst
          rw [hoctets] at hleft hstep
          have hnat : (m (cur + 2 + 5)).toNat = 2 + first.2.length := by
            rw [hid] at hsub
            rw [show cur + 2 + 5 = cur + 1 + 1 + 4 + 1 by omega, hsub, hfits.length_octet]
          rw [if_neg (by omega)]
          dsimp only
          rw [hlen, if_neg (by omega), if_neg (by omega), htype]
          refine hstep _ ?_
          have hswitch : ∀ q, radiusAttr k m total code rdTpVendorSpecific q =
              vendorAttr k m code q := by
            intro q
            rfl
          rw [hswitch]
          have h := vendorAttr_passes (k := k) (m := m) code
            (p := ⟨cur + 2, left - 2, (length.toNat : Int) - 2⟩) (by dsimp only; omega) hnat
            (by dsimp only; omega)
          rcases h with h | ⟨hcur, hl, hv⟩
          · exact .inl h
          · refine .inr ⟨hcur.trans ?_, hl.trans ?_, hv⟩
            · push_cast
              omega
            · push_cast
              omega

end Parse

end BroadcomWl.Nas
