import BroadcomWl.Lib.Tlv
import BroadcomWl.Crypto.Cipher
import BroadcomWl.Nas.Dispatch

/-!
# The Access-Request

`radius_forward` builds a packet from the identity of the access point, the user name and the server
state of the station, and an EAP packet in fragments of at most 253 octets; the
Message-Authenticator comes last. `radius_add` takes the length of a value as one octet, checks the
room without the two octets of the attribute's header, and drops what does not fit without telling
its caller.

**`request_wellFormed_iff`** says for which inputs the packet is well formed all the same.
-/

namespace BroadcomWl.Nas

open BroadcomWl.Lib.Tlv

/-! ## The packet -/

def radiusMaxLen : Nat := 4096
def radiusHeaderLen : Nat := 20
def radiusAccessRequest : UInt8 := 1

def rdTpUserName : UInt8 := 1
def rdTpNasIpAddress : UInt8 := 4
def rdTpNasPort : UInt8 := 5
def rdTpFramedMtu : UInt8 := 12
def rdTpState : UInt8 := 24
def rdTpCalledStationId : UInt8 := 30
def rdTpCallingStationId : UInt8 := 31
def rdTpNasIdentifier : UInt8 := 32
def rdTpNasPortType : UInt8 := 61
def rdTpEapMessage : UInt8 := 79
def rdTpMessageAuthenticator : UInt8 := 80
def rdTpNasIpv6Address : UInt8 := 95

/-- A packet that is being built; its length field counts the header and the attributes so far. -/
structure RadiusPacket where
  code : UInt8
  id : UInt8
  vector : Bytes
  attributes : Bytes

namespace RadiusPacket

def length (p : RadiusPacket) : Nat := radiusHeaderLen + p.attributes.length

def header (p : RadiusPacket) : Bytes := [p.code, p.id] ++ be16 p.length ++ p.vector

def bytes (p : RadiusPacket) : Bytes := p.header ++ p.attributes

end RadiusPacket

/-- `radius_add`: the caller's length becomes an `unsigned char`. -/
def radiusAdd (p : RadiusPacket) (a : Attr) : RadiusPacket :=
  let length := UInt8.ofNat a.2.length
  if p.length + length.toNat ≤ radiusMaxLen then
    { p with attributes := p.attributes ++ a.1 :: (2 + length) :: a.2.take length.toNat }
  else p

/-! ## The attributes -/

/-- `MAX_NAS_ID_LEN`. -/
def maxNasIdLen : Nat := 32

/-- What the instance says about itself in each request. -/
structure RadiusClient where
  ipv6 : Bool
  client : Bytes
  nasId : Bytes
  type : Nat
  secret : Bytes
  client_length : client.length = if ipv6 then 16 else 4
  nasId_length : nasId.length ≤ maxNasIdLen

def hexDigit (n : UInt8) : UInt8 := if n < 10 then 0x30 + n else 0x57 + n

/-- An address as `"%02x%02x%02x%02x%02x%02x"` prints it. -/
def stationId (ea : Bytes) : Bytes :=
  (List.range 6).flatMap fun k => [hexDigit (ea.getD k 0 / 16), hexDigit (ea.getD k 0 % 16)]

/-- `htonl` of a number, as it is stored in a `long` of the 32-bit target. -/
def be32 (n : Nat) : Bytes := be16 (n / 65536) ++ be16 n

/-- An attribute that is only added when there is a value. -/
def ifAny (type : UInt8) (v : Bytes) : List Attr := if v = [] then [] else [(type, v)]

/-- The attributes before the EAP messages. -/
def requestFront (n : RadiusClient) (ea sta username state : Bytes) : List Attr :=
  ifAny rdTpUserName username
    ++ [(if n.ipv6 then rdTpNasIpv6Address else rdTpNasIpAddress, n.client),
      (rdTpCalledStationId, stationId ea), (rdTpCallingStationId, stationId sta),
      (rdTpNasIdentifier, if n.nasId = [] then stationId ea else n.nasId),
      (rdTpNasPort, be32 (paeHash sta).val), (rdTpFramedMtu, be32 1400)]
    ++ ifAny rdTpState state ++ [(rdTpNasPortType, be32 n.type)]

/-- The fragments of an EAP packet; the first argument is the number of octets left. -/
def eapFragments : Nat → Bytes → List Bytes
  | 0, _ => []
  | left + 1, eap => if eap = [] then [] else eap.take 253 :: eapFragments left (eap.drop 253)

/-- All attributes in the order in which they are added, the Message-Authenticator still null. -/
def requestAttrs (n : RadiusClient) (ea sta username state eap : Bytes) : List Attr :=
  requestFront n ea sta username state
    ++ (eapFragments eap.length eap).map (fun v => (rdTpEapMessage, v))
    ++ [(rdTpMessageAuthenticator, List.replicate 16 0)]

/-- The packet before it is signed. -/
def requestPacket (n : RadiusClient) (ea : Bytes) (i : Slot)
    (vector sta username state eap : Bytes) : RadiusPacket :=
  (requestAttrs n ea sta username state eap).foldl radiusAdd
    ⟨radiusAccessRequest, UInt8.ofNat i.val, vector, []⟩

/-- The packet that `radius_forward` sends. The checksum over all of it is written to its last 16
octets. -/
def radiusRequest (cr : Crypto) (n : RadiusClient) (ea : Bytes) (i : Slot)
    (vector sta username state eap : Bytes) : Bytes :=
  let p := requestPacket n ea i vector sta username state eap
  p.bytes.take (p.length - 16) ++ cr.hmacMd5 p.bytes n.secret

/-! ## Well-formed packets -/

/-- A well-formed Access-Request that carries an EAP packet. -/
structure WellFormed (cr : Crypto) (secret : Bytes) (eap packet : Bytes) : Prop where
  le : packet.length ≤ radiusMaxLen
  length : (packet.getD 2 0).toNat * 256 + (packet.getD 3 0).toNat = packet.length
  attrs : ∃ as : List Attr, (∀ a ∈ as, Fits a) ∧ packet.drop radiusHeaderLen = encodeAll as
    ∧ valuesOf rdTpEapMessage as = eap
    ∧ ∃ before after mac, as = before ++ (rdTpMessageAuthenticator, mac) :: after
      ∧ mac = cr.hmacMd5 (packet.take radiusHeaderLen
          ++ encodeAll (before ++ (rdTpMessageAuthenticator, List.replicate 16 0) :: after)) secret

/-- The octets of an attribute value that `radius_add` copies. -/
def added (v : Bytes) : Nat := v.length % 256

/-- The octets of all attributes, if none is dropped. -/
def requestSize (n : RadiusClient) (ea sta username state eap : Bytes) : Nat :=
  radiusHeaderLen
    + ((requestAttrs n ea sta username state eap).map fun a => 2 + added a.2).sum

/-! ## The loop over the attributes -/

/-- What `radius_add` appends. -/
def put (a : Attr) : Bytes :=
  a.1 :: (2 + UInt8.ofNat a.2.length) :: a.2.take (added a.2)

@[simp] theorem put_length (a : Attr) : (put a).length = 2 + added a.2 := by
  simp [put, added]
  have := Nat.mod_le a.2.length 256
  omega

theorem radiusAdd_fits {p : RadiusPacket} {a : Attr} (h : p.length + added a.2 ≤ radiusMaxLen) :
    radiusAdd p a = { p with attributes := p.attributes ++ put a } := by
  have hlen : (UInt8.ofNat a.2.length).toNat = added a.2 := UInt8.toNat_ofNat'
  unfold radiusAdd
  dsimp only
  rw [hlen, if_pos h]
  rfl

theorem radiusAdd_extends (p : RadiusPacket) (a : Attr) :
    ∃ x, radiusAdd p a = { p with attributes := p.attributes ++ x } := by
  unfold radiusAdd
  dsimp only
  split
  · exact ⟨_, rfl⟩
  · exact ⟨[], by simp⟩

theorem foldl_fits (as : List Attr) : ∀ p : RadiusPacket,
    p.length + (as.map fun a => 2 + added a.2).sum ≤ radiusMaxLen →
      as.foldl radiusAdd p = { p with attributes := p.attributes ++ as.flatMap put } := by
  induction as with
  | nil => intro p _; simp
  | cons a as ih =>
      intro p h
      rw [List.map_cons, List.sum_cons] at h
      rw [List.foldl_cons, radiusAdd_fits (by omega), ih]
      · simp
      · simp only [RadiusPacket.length, List.length_append, put_length] at h ⊢
        omega

theorem foldl_extends (as : List Attr) : ∀ p : RadiusPacket,
    ∃ x, as.foldl radiusAdd p = { p with attributes := p.attributes ++ x } := by
  induction as with
  | nil => intro p; exact ⟨[], by simp⟩
  | cons a as ih =>
      intro p
      obtain ⟨x, hx⟩ := radiusAdd_extends p a
      obtain ⟨y, hy⟩ := ih (radiusAdd p a)
      refine ⟨x ++ y, ?_⟩
      rw [List.foldl_cons, hy, hx]
      simp

/-! ## The octets of an attribute -/

/-- An attribute as it stands in the packet: a value of 256 octets or more is truncated. -/
def sent (a : Attr) : Attr := (a.1, a.2.take (added a.2))

@[simp] theorem sent_length (a : Attr) : (sent a).2.length = added a.2 := by
  unfold sent
  rw [List.length_take]
  exact min_eq_left (Nat.mod_le _ _)

theorem put_encode (a : Attr) : put a = encode (sent a) := by
  have hoctet : (2 : UInt8) + UInt8.ofNat a.2.length = UInt8.ofNat (2 + added a.2) := by
    apply UInt8.toNat_inj.mp
    simp [added]
  unfold put encode
  rw [sent_length, hoctet]
  rfl

theorem added_le_of_cancel (as : List Attr) : ∀ {bs : List Attr} {x : Bytes},
    (∀ b ∈ bs, Fits b) → as.flatMap put ++ x = encodeAll bs → ∀ a ∈ as, added a.2 ≤ 253 := by
  induction as with
  | nil => intro bs x _ _ a ha; cases ha
  | cons a as ih =>
      intro bs x hbs h
      have ha : added a.2 ≤ 253 := by
        cases bs with
        | nil => cases h
        | cons b bs =>
            have hcons : a.1 :: (2 + UInt8.ofNat a.2.length) :: (a.2.take (added a.2)
                ++ (as.flatMap put ++ x))
                = b.1 :: UInt8.ofNat (2 + b.2.length) :: (b.2 ++ encodeAll bs) := by
              simpa [put, encode] using h
            obtain ⟨-, hrest⟩ := List.cons_eq_cons.mp hcons
            obtain ⟨hoctet, -⟩ := List.cons_eq_cons.mp hrest
            have hb := hbs b (by simp)
            have hval := congrArg UInt8.toNat hoctet
            rw [Fits.length_octet hb, UInt8.toNat_add, UInt8.toNat_ofNat'] at hval
            have h2 : (2 : UInt8).toNat = 2 := rfl
            have hb' : b.2.length ≤ 253 := hb
            unfold added
            omega
      have hfit : ∀ a' ∈ [sent a], Fits a' := by
        intro a' h'
        rw [List.mem_singleton.mp h', Fits, sent_length]
        exact ha
      have hcat : encodeAll [sent a] ++ (as.flatMap put ++ x) = encodeAll bs := by
        rw [encodeAll_cons, encodeAll_nil, List.append_nil, ← put_encode a, ← h]
        simp
      obtain ⟨cs, rfl, hx⟩ := encodeAll_cancel hfit hbs hcat
      intro a' ha'
      rcases List.mem_cons.mp ha' with rfl | ha'
      · exact ha
      · exact ih (fun c hc => hbs c (by simp [hc])) hx a' ha'

theorem flatMap_put (as : List Attr) :
    as.flatMap put = encodeAll (as.map sent) := by
  induction as with
  | nil => rfl
  | cons a as ih =>
      rw [List.flatMap_cons, List.map_cons, encodeAll_cons, put_encode a, ih]

/-! ## The fragments -/

theorem eapFragments_flatten (n : Nat) : ∀ eap : Bytes, eap.length ≤ n →
    (eapFragments n eap).flatten = eap := by
  induction n with
  | zero => intro eap h; simp [eapFragments, List.eq_nil_of_length_eq_zero (Nat.le_zero.mp h)]
  | succ n ih =>
      intro eap h
      unfold eapFragments
      split
      · rename_i hnil
        rw [hnil]
        rfl
      · rename_i hne
        have hpos : 0 < eap.length := List.length_pos_of_ne_nil hne
        rw [List.flatten_cons, ih _ (by rw [List.length_drop]; omega), List.take_append_drop]

theorem eapFragments_le (n : Nat) : ∀ eap : Bytes, ∀ v ∈ eapFragments n eap, v.length ≤ 253 := by
  induction n with
  | zero => intro eap v hv; cases hv
  | succ n ih =>
      intro eap v hv
      unfold eapFragments at hv
      split at hv
      · cases hv
      · rcases List.mem_cons.mp hv with rfl | hv
        · exact List.length_take_le _ _
        · exact ih _ v hv

theorem eapFragments_size (n : Nat) : ∀ eap : Bytes, eap.length ≤ n →
    ((eapFragments n eap).map fun v => 2 + added v).sum = minSize eap.length := by
  induction n with
  | zero => intro eap h; simp [eapFragments, Nat.le_zero.mp h, minSize]
  | succ n ih =>
      intro eap h
      unfold eapFragments
      split
      · rename_i hnil
        rw [hnil]
        rfl
      · rename_i hne
        have hpos : 0 < eap.length := List.length_pos_of_ne_nil hne
        have hrest := ih (eap.drop 253) (by rw [List.length_drop]; omega)
        rw [List.map_cons, List.sum_cons, hrest, List.length_drop]
        unfold added minSize
        rw [List.length_take]
        omega

/-! ## The attributes in front -/

@[simp] theorem stationId_length (ea : Bytes) : (stationId ea).length = 12 := by
  simp [stationId]

@[simp] theorem be32_length (n : Nat) : (be32 n).length = 4 := by
  simp [be32, be16]

section Request

variable (n : RadiusClient) (ea sta username state : Bytes)

theorem requestFront_type :
    ∀ a ∈ requestFront n ea sta username state, a.1 ≠ rdTpEapMessage ∧
    a.1 ≠ rdTpMessageAuthenticator := by
  have htypes : ∀ type ∈ [rdTpUserName, rdTpNasIpAddress, rdTpNasPort, rdTpFramedMtu, rdTpState,
      rdTpCalledStationId, rdTpCallingStationId, rdTpNasIdentifier, rdTpNasPortType,
      rdTpNasIpv6Address], type ≠ rdTpEapMessage ∧ type ≠ rdTpMessageAuthenticator := by
    decide +kernel
  have hany : ∀ type v, ∀ a ∈ ifAny type v, a.1 = type := by
    intro type v a ha
    unfold ifAny at ha
    split at ha
    · cases ha
    · rw [List.mem_singleton.mp ha]
  intro a ha
  apply htypes
  unfold requestFront at ha
  simp only [List.mem_append, List.mem_cons, List.not_mem_nil, or_false] at ha
  rcases ha with ((ha | rfl | rfl | rfl | rfl | rfl | rfl) | ha) | rfl
  · simp [hany _ _ a ha]
  · by_cases h6 : n.ipv6 = true <;> simp [h6]
  · simp
  · simp
  · simp
  · simp
  · simp
  · simp [hany _ _ a ha]
  · simp

theorem clientId_length : n.client.length ≤ 16 := by
  have h := n.client_length
  split at h <;> omega

theorem nasIdentifier_length : (if n.nasId = [] then stationId ea else n.nasId).length ≤ 32 := by
  have h := n.nasId_length
  unfold maxNasIdLen at h
  split
  · simp
  · exact h

/-- The two attributes whose length octet may wrap are those with data of the peer. -/
theorem requestFront_added :
    (∀ a ∈ requestFront n ea sta username state, added a.2 ≤ 253)
      ↔ added username ≤ 253 ∧ added state ≤ 253 := by
  have hclient := clientId_length n
  have hid := nasIdentifier_length n ea
  have hany : ∀ type v, (∀ a ∈ ifAny type v, added a.2 ≤ 253) ↔ added v ≤ 253 := by
    intro type v
    unfold ifAny
    split
    · rename_i hnil
      rw [hnil]
      simp [added]
    · simp
  have hsmall : ∀ v : Bytes, v.length ≤ 32 → added v ≤ 253 := fun v hv => by
    have := Nat.mod_le v.length 256
    unfold added
    omega
  unfold requestFront
  simp only [List.forall_mem_append, List.forall_mem_cons, List.not_mem_nil, false_implies,
    implies_true, and_true, hany, hsmall _ hid, hsmall n.client (by omega),
    hsmall (stationId ea) (by simp), hsmall (stationId sta) (by simp),
    hsmall (be32 (paeHash sta).val) (by simp), hsmall (be32 1400) (by simp),
    hsmall (be32 n.type) (by simp)]

theorem requestFront_size :
    ((requestFront n ea sta username state).map fun a => 2 + added a.2).sum ≤ 700 := by
  have hclient := clientId_length n
  have hid := nasIdentifier_length n ea
  have hany : ∀ type v, ((ifAny type v).map fun a => 2 + added a.2).sum ≤ 257 := by
    intro type v
    have : added v < 256 := Nat.mod_lt _ (by decide)
    unfold ifAny
    split
    · simp
    · simp
      omega
  have hadd : ∀ v : Bytes, added v ≤ v.length := fun v => Nat.mod_le _ _
  have husername := hany rdTpUserName username
  have hstate := hany rdTpState state
  have h1 := hadd n.client
  have h2 := hadd (stationId ea)
  have h3 := hadd (stationId sta)
  have h4 := hadd (if n.nasId = [] then stationId ea else n.nasId)
  have h5 := hadd (be32 (paeHash sta).val)
  have h6 := hadd (be32 1400)
  have h7 := hadd (be32 n.type)
  simp only [stationId_length, be32_length] at h2 h3 h5 h6 h7
  unfold requestFront
  simp only [List.map_append, List.map_cons, List.map_nil, List.sum_append, List.sum_cons,
    List.sum_nil]
  omega

end Request

/-! ## The whole packet -/

section Request

variable (cr : Crypto) (n : RadiusClient) (ea : Bytes) (i : Slot)
  (vector sta username state eap : Bytes)

theorem requestSize_eq :
    requestSize n ea sta username state eap
      = radiusHeaderLen + ((requestFront n ea sta username state).map fun a => 2 + added a.2).sum
        + minSize eap.length + 18 := by
  have hfrag := eapFragments_size eap.length eap le_rfl
  have hmac : added (List.replicate 16 (0 : UInt8)) = 16 := by decide
  unfold requestSize requestAttrs
  simp only [List.map_append, List.map_map, List.map_cons, List.map_nil, List.sum_append,
    List.sum_cons, List.sum_nil, Function.comp_def, hfrag, hmac]
  omega

/-- The attributes in front always fit, and room for 16 octets remains after them. -/
theorem requestPacket_attributes :
    ∃ x : Bytes, 16 ≤ x.length ∧ requestPacket n ea i vector sta username state eap
      = ⟨radiusAccessRequest, UInt8.ofNat i.val, vector,
          (requestFront n ea sta username state).flatMap put ++ x⟩ := by
  have hsize := requestFront_size n ea sta username state
  let p : RadiusPacket := ⟨radiusAccessRequest, UInt8.ofNat i.val, vector,
    (requestFront n ea sta username state).flatMap put⟩
  have hfront : (requestFront n ea sta username state).foldl radiusAdd
      ⟨radiusAccessRequest, UInt8.ofNat i.val, vector, []⟩ = p := by
    rw [foldl_fits]
    · rfl
    · simp only [RadiusPacket.length, radiusHeaderLen, radiusMaxLen, List.length_nil]
      omega
  obtain ⟨z, hz⟩ := foldl_extends
    ((eapFragments eap.length eap).map fun v => (rdTpEapMessage, v)) p
  have hmac : added (List.replicate 16 (0 : UInt8)) = 16 := by decide
  unfold requestPacket requestAttrs
  rw [List.foldl_append, List.foldl_append, hfront, hz, List.foldl_cons, List.foldl_nil]
  by_cases hroom : radiusHeaderLen + (p.attributes ++ z).length + 16 ≤ radiusMaxLen
  · refine ⟨z ++ put (rdTpMessageAuthenticator, List.replicate 16 0), ?_, ?_⟩
    · rw [List.length_append, put_length, hmac]
      omega
    rw [radiusAdd_fits]
    · simp [p]
    · rw [hmac]
      exact hroom
  · refine ⟨z, ?_, ?_⟩
    · have hp : p.attributes.length
          = ((requestFront n ea sta username state).map fun a => 2 + added a.2).sum := by
        simp [p, List.length_flatMap]
      rw [List.length_append, hp] at hroom
      unfold radiusHeaderLen radiusMaxLen at hroom
      omega
    · unfold radiusAdd
      dsimp only
      rw [if_neg]
      intro h
      exact hroom h

theorem signed_bytes {p : RadiusPacket} (hvec : p.vector.length = 16)
    (hlen : 16 ≤ p.attributes.length) (mac : Bytes) :
    p.bytes.take (p.length - 16) ++ mac
      = p.header ++ (p.attributes.take (p.attributes.length - 16) ++ mac) := by
  have hheader : p.header.length = radiusHeaderLen := by
    simp [RadiusPacket.header, be16, hvec, radiusHeaderLen]
  unfold RadiusPacket.bytes RadiusPacket.length
  rw [← List.append_assoc, List.take_append, hheader, List.take_of_length_le (by omega)]
  congr 3
  omega

theorem requestAttrs_sent :
    (requestAttrs n ea sta username state eap).map sent
      = ((requestFront n ea sta username state).map sent
          ++ (eapFragments eap.length eap).map fun v => (rdTpEapMessage, v))
        ++ [(rdTpMessageAuthenticator, List.replicate 16 0)] := by
  have hfrag : (eapFragments eap.length eap).map (fun v => sent (rdTpEapMessage, v))
      = (eapFragments eap.length eap).map fun v => (rdTpEapMessage, v) := by
    apply List.map_congr_left
    intro v hv
    have hle := eapFragments_le _ _ v hv
    have hadd : added v = v.length := Nat.mod_eq_of_lt (by omega)
    unfold sent
    rw [hadd, List.take_length]
  unfold requestAttrs
  rw [List.map_append, List.map_append, List.map_map]
  unfold Function.comp
  rw [hfrag]
  rfl

theorem requestPacket_complete (h : requestSize n ea sta username state eap ≤ radiusMaxLen) :
    requestPacket n ea i vector sta username state eap
      = ⟨radiusAccessRequest, UInt8.ofNat i.val, vector,
          encodeAll (((requestFront n ea sta username state).map sent
              ++ (eapFragments eap.length eap).map fun v => (rdTpEapMessage, v))
            ++ [(rdTpMessageAuthenticator, List.replicate 16 0)])⟩ := by
  have hfits : RadiusPacket.length ⟨radiusAccessRequest, UInt8.ofNat i.val, vector, []⟩
      + ((requestAttrs n ea sta username state eap).map fun a => 2 + added a.2).sum
        ≤ radiusMaxLen := h
  unfold requestPacket
  rw [foldl_fits _ _ hfits, List.nil_append, flatMap_put]
  rw [requestAttrs_sent]

theorem valuesOf_map (type : UInt8) (vs : List Bytes) :
    valuesOf type (vs.map fun v => (type, v)) = vs.flatten := by
  unfold valuesOf
  induction vs with
  | nil => rfl
  | cons v vs ih => simpa using ih

theorem valuesOf_nil (type : UInt8) (as : List Attr) (h : ∀ a ∈ as, a.1 ≠ type) :
    valuesOf type as = [] := by
  unfold valuesOf
  rw [List.filter_eq_nil_iff.mpr fun a ha => by simpa using h a ha]
  rfl

/-- **Enough room.** With room for everything, and values whose length octet does not wrap, the
packet is well formed. -/
theorem wellFormed_of_size (hvec : vector.length = 16)
    (hmac : ∀ text key, (cr.hmacMd5 text key).length = 16)
    (husername : added username ≤ 253) (hstate : added state ≤ 253)
    (hsize : requestSize n ea sta username state eap ≤ radiusMaxLen) :
    WellFormed cr n.secret eap (radiusRequest cr n ea i vector sta username state eap) := by
  have hcomplete := requestPacket_complete n ea i vector sta username state eap hsize
  have hadded := (requestFront_added n ea sta username state).mpr ⟨husername, hstate⟩
  have htype := requestFront_type n ea sta username state
  have hflat := eapFragments_flatten eap.length eap le_rfl
  have hfragle := eapFragments_le eap.length eap
  have hlength : (requestPacket n ea i vector sta username state eap).length
      = requestSize n ea sta username state eap := by
    rw [hcomplete]
    have hput := congrArg List.length (flatMap_put (requestAttrs n ea sta username state eap))
    simp only [List.length_flatMap, put_length] at hput
    unfold requestSize RadiusPacket.length
    rw [hput, requestAttrs_sent]
  unfold radiusRequest
  dsimp only
  generalize hp : requestPacket n ea i vector sta username state eap = p at hcomplete hlength
  generalize hbefore : (requestFront n ea sta username state).map sent
    ++ (eapFragments eap.length eap).map (fun v => (rdTpEapMessage, v)) = before at hcomplete
  have hpvec : p.vector.length = 16 := by rw [hcomplete]; exact hvec
  have hattrs : p.attributes = encodeAll before ++ ([rdTpMessageAuthenticator, 18]
      ++ List.replicate 16 0) := by
    rw [hcomplete, encodeAll_append]
    rfl
  have hlen16 : p.attributes.length - 16 =
      (encodeAll before ++ [rdTpMessageAuthenticator, 18]).length := by
    rw [hattrs]
    simp
  have htake : p.attributes.take (p.attributes.length - 16)
      = encodeAll before ++ [rdTpMessageAuthenticator, 18] := by
    rw [hlen16, hattrs, ← List.append_assoc]
    exact List.take_left
  have hheader : p.header.length = radiusHeaderLen := by
    simp [RadiusPacket.header, be16, hpvec, radiusHeaderLen]
  generalize hm : cr.hmacMd5 p.bytes n.secret = mac
  have hmaclen : mac.length = 16 := by rw [← hm]; exact hmac _ _
  have hpacket : p.bytes.take (p.length - 16) ++ mac
      = p.header ++ encodeAll (before ++ [(rdTpMessageAuthenticator, mac)]) := by
    rw [signed_bytes hpvec (by rw [hattrs]; simp), htake, encodeAll_append]
    simp [encode, hmaclen]
  rw [hpacket]
  have htotal : (p.header ++ encodeAll (before ++ [(rdTpMessageAuthenticator, mac)])).length
      = requestSize n ea sta username state eap := by
    rw [← hpacket, ← hlength, List.length_append, List.length_take, hmaclen]
    have : 16 ≤ p.attributes.length := by rw [hattrs]; simp
    unfold RadiusPacket.bytes RadiusPacket.length
    rw [List.length_append, hheader]
    omega
  refine ⟨by rw [htotal]; exact hsize, ?_, before ++ [(rdTpMessageAuthenticator, mac)], ?_, ?_, ?_,
    before, [], mac, rfl, ?_⟩
  · rw [htotal, ← hlength]
    have hle : p.length ≤ 4096 := by rw [hlength]; exact hsize
    simp [RadiusPacket.header, be16]
    omega
  · intro a ha
    rcases List.mem_append.mp ha with ha | ha
    · rw [← hbefore] at ha
      rcases List.mem_append.mp ha with ha | ha
      · obtain ⟨b, hb, rfl⟩ := List.mem_map.mp ha
        rw [Fits, sent_length]
        exact hadded b hb
      · obtain ⟨v, hv, rfl⟩ := List.mem_map.mp ha
        exact hfragle v hv
    · rw [List.mem_singleton.mp ha, Fits]
      dsimp only
      omega
  · exact List.drop_left' hheader
  · rw [← hbefore]
    unfold valuesOf
    rw [List.filter_append, List.filter_append, List.flatMap_append, List.flatMap_append]
    have hfront :=
        valuesOf_nil rdTpEapMessage ((requestFront n ea sta username state).map sent) fun a ha => by
        obtain ⟨b, hb, rfl⟩ := List.mem_map.mp ha
        exact (htype b hb).1
    have hfrags := valuesOf_map rdTpEapMessage (eapFragments eap.length eap)
    unfold valuesOf at hfront hfrags
    rw [hfront, hfrags, hflat]
    simp [rdTpMessageAuthenticator, rdTpEapMessage]
  · rw [← hm, List.take_left' hheader]
    congr 1
    unfold RadiusPacket.bytes
    rw [hcomplete]

/-- **What well-formedness takes.** A well-formed packet has the attributes in front, a
Message-Authenticator and all of the EAP packet, so there was room for them. -/
theorem size_of_wellFormed (hvec : vector.length = 16)
    (hmac : ∀ text key, (cr.hmacMd5 text key).length = 16)
    (h : WellFormed cr n.secret eap (radiusRequest cr n ea i vector sta username state eap)) :
    added username ≤ 253 ∧ added state ≤ 253
      ∧ requestSize n ea sta username state eap ≤ radiusMaxLen := by
  obtain ⟨x, hx, hp⟩ := requestPacket_attributes n ea i vector sta username state eap
  have htype := requestFront_type n ea sta username state
  obtain ⟨hle, -, as, hfit, hdrop, hvalues, before, after, mac, rfl, hmaceq⟩ := h
  have hmaclen : mac.length = 16 := by rw [hmaceq]; exact hmac _ _
  unfold radiusRequest at hle hdrop
  dsimp only at hle hdrop
  generalize requestPacket n ea i vector sta username state eap = p at hp hle hdrop
  generalize hfront : requestFront n ea sta username state = front at hp htype
  have hpvec : p.vector.length = 16 := by rw [hp]; exact hvec
  have hattrs : p.attributes = front.flatMap put ++ x := by rw [hp]
  have hheader : p.header.length = radiusHeaderLen := by
    simp [RadiusPacket.header, be16, hpvec, radiusHeaderLen]
  rw [signed_bytes hpvec (by rw [hattrs, List.length_append]; omega)] at hle hdrop
  generalize cr.hmacMd5 p.bytes n.secret = signature at hle hdrop
  have hkept : p.attributes.take (p.attributes.length - 16)
      = front.flatMap put ++ x.take (x.length - 16) := by
    rw [hattrs, List.take_append, List.take_of_length_le (by rw [List.length_append]; omega)]
    congr 2
    rw [List.length_append]
    omega
  rw [hkept, List.append_assoc] at hle
  rw [hkept, List.drop_left' hheader, List.append_assoc] at hdrop
  have hadded := added_le_of_cancel front hfit hdrop
  rw [← hfront, requestFront_added] at hadded
  refine ⟨hadded.1, hadded.2, ?_⟩
  have hfrontfit : ∀ a ∈ front.map sent, Fits a := by
    intro a ha
    obtain ⟨b, hb, rfl⟩ := List.mem_map.mp ha
    rw [Fits, sent_length]
    exact (requestFront_added n ea sta username state).mpr hadded b (hfront ▸ hb)
  have hsize : (encodeAll (front.map sent)).length = (front.map fun a => 2 + added a.2).sum := by
    rw [← flatMap_put, List.length_flatMap]
    simp only [put_length]
  have hlength := congrArg List.length hdrop
  rw [flatMap_put] at hdrop
  obtain ⟨cs, hcs, -⟩ := encodeAll_cancel hfrontfit hfit hdrop
  have hothers := minSize_le rdTpEapMessage hfit
  have hmem : (rdTpMessageAuthenticator, mac) ∈ cs.filter fun a => a.1 ≠ rdTpEapMessage := by
    have hin : (rdTpMessageAuthenticator, mac) ∈ front.map sent ++ cs := by rw [← hcs]; simp
    rcases List.mem_append.mp hin with hin | hin
    · obtain ⟨b, hb, heq⟩ := List.mem_map.mp hin
      exact absurd (congrArg Prod.fst heq) (htype b hb).2
    · rw [List.mem_filter]
      exact ⟨hin, decide_eq_true (show rdTpMessageAuthenticator ≠ rdTpEapMessage by decide)⟩
  have hfrontall : (front.map sent).filter (fun a => a.1 ≠ rdTpEapMessage) = front.map sent := by
    apply List.filter_eq_self.mpr
    intro a ha
    obtain ⟨b, hb, rfl⟩ := List.mem_map.mp ha
    exact decide_eq_true (htype b hb).1
  have hmacroom := length_le_encodeAll hmem
  rw [hvalues, hcs, List.filter_append, hfrontall, encodeAll_append, List.length_append, hsize,
    ← hcs] at hothers
  rw [List.length_append, hheader, hlength] at hle
  rw [requestSize_eq, hfront]
  rw [hmaclen] at hmacroom
  omega

/-- **The Access-Request.** It is well formed if and only if the length octets of the two attributes
with data of the peer do not wrap and everything fits. -/
theorem request_wellFormed_iff (hvec : vector.length = 16)
    (hmac : ∀ text key, (cr.hmacMd5 text key).length = 16) :
    WellFormed cr n.secret eap (radiusRequest cr n ea i vector sta username state eap)
      ↔ added username ≤ 253 ∧ added state ≤ 253
        ∧ requestSize n ea sta username state eap ≤ radiusMaxLen := by
  constructor
  · exact size_of_wellFormed cr n ea i vector sta username state eap hvec hmac
  · intro h
    exact wellFormed_of_size cr n ea i vector sta username state eap hvec hmac h.1 h.2.1 h.2.2

end Request

/-! ## Concrete requests -/

/-- An access point at `10.0.0.1`. -/
def plainClient : RadiusClient where
  ipv6 := false
  client := [10, 0, 0, 1]
  nasId := []
  type := 19
  secret := [1, 2, 3, 4]
  client_length := rfl
  nasId_length := Nat.zero_le _

/-- An EAP-Response/Identity. -/
def eapIdentityOf (identity : Bytes) : Bytes :=
  [eapResponse, 0] ++ be16 (5 + identity.length) ++ [eapIdentity] ++ identity

/-- The request for an EAP-Response/Identity, from the station `02:00:00:00:00:09`. -/
def identityRequest (identity : Bytes) : Bytes :=
  radiusRequest Crypto.bcmcrypto plainClient [2, 0, 0, 0, 0, 1] firstSlot (List.replicate 16 7)
    [2, 0, 0, 0, 0, 9] identity [] (eapIdentityOf identity)

theorem request_wellFormed_short : WellFormed Crypto.bcmcrypto plainClient.secret
    (eapIdentityOf [0x62, 0x6f, 0x62]) (identityRequest [0x62, 0x6f, 0x62]) :=
  (request_wellFormed_iff Crypto.bcmcrypto plainClient _ firstSlot _ _ _ _ _ (by decide)
    Crypto.hmacMd5_length).mpr (by decide +kernel)

/-- **An identity of 254 octets**: the length octet of the user name wraps to zero. -/
theorem request_longIdentity : ¬ WellFormed Crypto.bcmcrypto plainClient.secret
    (eapIdentityOf (List.replicate 254 0x61)) (identityRequest (List.replicate 254 0x61)) := by
  intro h
  have hadded := (size_of_wellFormed _ _ _ _ _ _ _ _ _ (by decide) Crypto.hmacMd5_length h).1
  revert hadded
  decide +kernel

end BroadcomWl.Nas
