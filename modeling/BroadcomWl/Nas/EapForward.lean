import BroadcomWl.Nas.Authorize
import BroadcomWl.Nas.EffectsStep
import BroadcomWl.Nas.RadiusRequest

/-!
# What is forwarded of an EAP packet

A frame has three lengths: the number of octets received, the length in its EAPOL header, and the
one in its EAP header. `radius_forward` believes the last. `eapol_dispatch_ex` compares it with the
number of octets received, but only for an EAP-Response/Identity.

**Ranges.** The loop of `radius_forward` hands its fragments to `radius_add` by address and length,
and `radius_add` copies those for which there is room (`placed`); the identity is copied by
`eapol_dispatch_ex`. What is copied is a list of ranges of the frame (`taken`).

**`eap_forward_iff`.** All ranges that are copied have been received exactly if the frame is not
forwarded unchecked, or has as many octets as the fragments reach. -/

namespace BroadcomWl.Nas

open BroadcomWl.Lib BroadcomWl.Lib.Tlv

/-! ## Fragments -/

/-- An offset and a number of octets. -/
abbrev Range := Nat × Nat

/-- The octets of a range. -/
def Mem.range (m : Mem) (off : Nat) (r : Range) : Bytes := m.slice (off + r.1) r.2

/-- The fragments that the loop hands over: with `left` octets left, the next is at `length
- left`. -/
def fragments (length : Nat) : List Range :=
  (List.range ((length + 252) / 253)).map fun k => (253 * k, min 253 (length - 253 * k))

/-- Those for which there is room in a packet of `front` octets. -/
def placed : Nat → List Range → List Range
  | _, [] => []
  | front, r :: rs =>
      if front + r.2 ≤ radiusMaxLen then r :: placed (front + (2 + r.2)) rs else placed front rs

theorem placed_cons (front : Nat) (r : Range) (rs : List Range) : placed front (r :: rs)
    = if front + r.2 ≤ radiusMaxLen then r :: placed (front + (2 + r.2)) rs else placed front rs :=
      rfl

theorem fragments_pos {length : Nat} (h : 0 < length) :
    fragments length
      = (0, min 253 length) :: (fragments (length - 253)).map fun r => (253 + r.1, r.2) := by
  have hcount : (length + 252) / 253 = (length - 253 + 252) / 253 + 1 := by omega
  unfold fragments
  rw [hcount, List.range_succ_eq_map, List.map_cons, List.map_map, List.map_map]
  refine congrArg₂ List.cons (by simp) (List.map_congr_left fun k _ => ?_)
  dsimp only [Function.comp_apply]
  refine Prod.ext (by dsimp only; omega) (by dsimp only; omega)

theorem eapFragments_slice (m : Mem) (left : Nat) : ∀ off length : Nat, length ≤ left →
    eapFragments left (m.slice off length) = (fragments length).map (m.range off) := by
  induction left with
  | zero =>
      intro off length h
      rw [Nat.le_zero.mp h]
      rfl
  | succ left ih =>
      intro off length h
      unfold eapFragments
      cases length with
      | zero => rfl
      | succ n =>
          rw [if_neg (show m.slice off (n + 1) ≠ [] from List.cons_ne_nil _ _),
            fragments_pos (Nat.succ_pos n), Mem.slice_take, Mem.slice_drop, ih _ _ (by omega),
            List.map_cons, List.map_map]
          refine congrArg (List.cons _) (List.map_congr_left fun r _ => ?_)
          unfold Mem.range
          rw [Function.comp_apply, Nat.add_assoc]

theorem fragments_le {length : Nat} {r : Range} (h : r ∈ fragments length) :
    r.1 + r.2 ≤ length ∧ r.2 ≤ 253 := by
  obtain ⟨k, hk, rfl⟩ := List.mem_map.mp h
  rw [List.mem_range] at hk
  refine ⟨?_, Nat.min_le_left _ _⟩
  dsimp only
  omega

theorem placed_subset (rs : List Range) :
    ∀ {front : Nat} {r : Range}, r ∈ placed front rs → r ∈ rs := by
  induction rs with
  | nil => intro front r h; exact h
  | cons a rs ih =>
      intro front r h
      rw [placed_cons] at h
      split at h
      · rcases List.mem_cons.mp h with rfl | h
        · exact List.mem_cons_self
        · exact List.mem_cons_of_mem _ (ih h)
      · exact List.mem_cons_of_mem _ (ih h)

/-- **The loop of `radius_forward`** copies the octets of the placed ranges. -/
theorem foldl_placed (m : Mem) (off : Nat) (rs : List Range) :
    ∀ p : RadiusPacket, (∀ r ∈ rs, r.2 ≤ 253) →
      (rs.map fun r => (rdTpEapMessage, m.range off r)).foldl radiusAdd p
        = { p with attributes := p.attributes
            ++ (placed p.length rs).flatMap fun r => encode (rdTpEapMessage, m.range off r) } := by
  induction rs with
  | nil => intro p _; simp [placed]
  | cons r rs ih =>
      intro p h
      have hr : r.2 ≤ 253 := h r List.mem_cons_self
      have hlen : (m.range off r).length = r.2 := m.slice_length _ _
      have hadd : added (m.range off r) = r.2 := by
        rw [added, hlen]
        exact Nat.mod_eq_of_lt (by omega)
      have hsent : sent (rdTpEapMessage, m.range off r) = (rdTpEapMessage, m.range off r) := by
        unfold sent
        rw [hadd, ← hlen, List.take_length]
      rw [List.map_cons, List.foldl_cons, placed_cons]
      by_cases hroom : p.length + r.2 ≤ radiusMaxLen
      · rw [if_pos hroom, radiusAdd_fits (by rwa [hadd]),
          ih _ fun r' h' => h r' (List.mem_cons_of_mem _ h'), put_encode, hsent]
        have hlength : RadiusPacket.length { p with
            attributes := p.attributes ++ encode (rdTpEapMessage, m.range off r) } =
                p.length + (2 + r.2) := by
          have he := put_length (rdTpEapMessage, m.range off r)
          rw [put_encode, hsent, hadd] at he
          unfold RadiusPacket.length
          rw [List.length_append, he, Nat.add_assoc]
        rw [hlength, List.flatMap_cons, List.append_assoc]
      · have hdrop : radiusAdd p (rdTpEapMessage, m.range off r) = p := by
          have ho : (UInt8.ofNat (m.range off r).length).toNat = added (m.range off r) :=
            UInt8.toNat_ofNat'
          unfold radiusAdd
          dsimp only
          rw [ho, hadd, if_neg hroom]
        rw [if_neg hroom, hdrop, ih _ fun r' h' => h r' (List.mem_cons_of_mem _ h')]

/-! ## How far the fragments reach -/

theorem placed_append (rs rs' : List Range) : ∀ front : Nat,
    placed front (rs ++ rs') = placed front rs
      ++ placed (front + ((placed front rs).map fun r => 2 + r.2).sum) rs' := by
  induction rs with
  | nil => intro front; rfl
  | cons r rs ih =>
      intro front
      rw [List.cons_append, placed_cons, placed_cons]
      split
      · rw [ih, List.map_cons, List.sum_cons, List.cons_append, Nat.add_assoc]
      · exact ih front

/-- Fragments of 253 octets. -/
def whole (a n : Nat) : List Range := (List.range' a n).map fun k => (253 * k, 253)

theorem whole_succ (a n : Nat) : whole a (n + 1) = (253 * a, 253) :: whole (a + 1) n := rfl

theorem placed_whole (n : Nat) : ∀ a front : Nat,
    placed front (whole a n) = whole a (min n ((radiusMaxLen + 2 - front) / 255)) := by
  induction n with
  | zero => intro a front; simp [whole, placed]
  | succ n ih =>
      intro a front
      rw [whole_succ, placed_cons]
      unfold radiusMaxLen at ih ⊢
      by_cases hroom : front + 253 ≤ 4096
      · rw [if_pos hroom, ih]
        have hmin : min (n + 1) ((4096 + 2 - front) / 255)
            = min n ((4096 + 2 - (front + (2 + 253))) / 255) + 1 := by
          omega
        rw [hmin, whole_succ]
      · rw [if_neg hroom, ih]
        have hnone : (4096 + 2 - front) / 255 = 0 := by omega
        rw [hnone]
        simp [whole]

theorem whole_size (a n : Nat) : ((whole a n).map fun r => 2 + r.2).sum = 255 * n := by
  have hconst : ((fun r : Range => 2 + r.2) ∘ fun k => (253 * k, 253)) = fun _ => 255 := rfl
  unfold whole
  rw [List.map_map, hconst, List.map_const', List.sum_replicate, List.length_range', smul_eq_mul,
    Nat.mul_comm]

theorem fragments_eq (length : Nat) : fragments length
    = whole 0 (length / 253)
      ++ if length % 253 = 0 then [] else [(253 * (length / 253), length % 253)] := by
  have hwhole : (List.range (length / 253)).map (fun k => (253 * k, min 253 (length - 253 * k)))
      = whole 0 (length / 253) := by
    unfold whole
    rw [← List.range_eq_range']
    refine List.map_congr_left fun k hk => Prod.ext rfl ?_
    rw [List.mem_range] at hk
    dsimp only
    omega
  unfold fragments
  by_cases hrest : length % 253 = 0
  · rw [if_pos hrest, List.append_nil, ← hwhole]
    congr 2
    omega
  · have hcount : (length + 252) / 253 = length / 253 + 1 := by omega
    rw [if_neg hrest, hcount, List.range_succ, List.map_append, hwhole]
    refine congrArg _ (congrArg (fun r => [r]) (Prod.ext rfl ?_))
    dsimp only
    omega

/-- The end of what is copied of `length` octets into a packet of `front` octets. -/
def eapReach (front length : Nat) : Nat :=
  let whole := min (length / 253) ((radiusMaxLen + 2 - front) / 255)
  if length % 253 ≠ 0 ∧ front + 255 * whole + length % 253 ≤ radiusMaxLen then length
  else 253 * whole

/-- Only ranges without octets are placed, or the last range ends at `eapReach`. -/
theorem placed_reach {front : Nat} (length : Nat) (hfront : front ≤ radiusMaxLen - 253) (n : Int) :
    (∀ r ∈ placed front (fragments length), (r.1 + r.2 : Int) ≤ n)
      ↔ length = 0 ∨ (eapReach front length : Int) ≤ n := by
  rw [fragments_eq, placed_append, placed_whole, whole_size]
  unfold eapReach
  unfold radiusMaxLen at *
  dsimp only
  have hsome : 4096 + 2 - front ≥ 255 := by omega
  generalize hw : min (length / 253) ((4096 + 2 - front) / 255) = w
  have hall : (∀ r ∈ whole 0 w, (r.1 + r.2 : Int) ≤ n) ↔ w = 0 ∨ (253 * w : Int) ≤ n := by
    unfold whole
    simp only [List.forall_mem_map, List.mem_range'_1, Nat.zero_le, true_and, Nat.zero_add]
    refine ⟨fun h => ?_, fun h k hk => by push_cast; omega⟩
    rcases Nat.eq_zero_or_pos w with hw0 | hpos
    · exact .inl hw0
    · have hlast := h (w - 1) (by omega)
      push_cast at hlast
      omega
  simp only [List.forall_mem_append, hall]
  by_cases hrest : length % 253 = 0
  · rw [if_pos hrest, if_neg (fun h => h.1 hrest)]
    simp only [placed, List.not_mem_nil, false_implies, implies_true, and_true]
    push_cast
    omega
  · rw [if_neg hrest]
    rw [placed_cons]
    unfold radiusMaxLen
    by_cases hroom : front + 255 * w + length % 253 ≤ 4096
    · rw [if_pos hroom, if_pos ⟨hrest, hroom⟩]
      simp only [placed, List.forall_mem_singleton]
      push_cast
      omega
    · rw [if_neg hroom, if_neg (fun h => hroom h.2)]
      simp only [placed, List.not_mem_nil, false_implies, implies_true, and_true]
      push_cast
      omega

/-! ## The request -/

section Request

variable (n : RadiusClient) (ea sta username state : Bytes)

/-- The length of the packet when the EAP packet is about to be added. -/
def frontLength : Nat :=
  radiusHeaderLen + ((requestFront n ea sta username state).map fun a => 2 + added a.2).sum

theorem frontLength_le : frontLength n ea sta username state ≤ radiusMaxLen - 253 := by
  have h := requestFront_size n ea sta username state
  unfold frontLength radiusHeaderLen radiusMaxLen
  omega

/-- The length does not depend on the station's address, which is always printed with
twelve digits. -/
theorem frontLength_sta (sta' : Bytes) :
    frontLength n ea sta username state = frontLength n ea sta' username state := by
  simp [frontLength, requestFront, added]

/-- The packet in front of the EAP packet. -/
def requestStart (i : Slot) (vector : Bytes) : RadiusPacket :=
  ⟨radiusAccessRequest, UInt8.ofNat i.val, vector,
    (requestFront n ea sta username state).flatMap put⟩

theorem requestStart_length (i : Slot) (vector : Bytes) :
    (requestStart n ea sta username state i vector).length =
      frontLength n ea sta username state := by
  simp [requestStart, RadiusPacket.length, frontLength, List.length_flatMap]

/-- **What `radius_forward` places into the request**: the octets of the placed ranges, and nothing
else of the EAP packet. -/
theorem requestPacket_placed (i : Slot) (vector : Bytes) (m : Mem) (off length : Nat) :
    requestPacket n ea i vector sta username state (m.slice off length)
      = radiusAdd { requestStart n ea sta username state i vector with
          attributes := (requestStart n ea sta username state i vector).attributes
            ++ (placed (frontLength n ea sta username state) (fragments length)).flatMap
              fun r => encode (rdTpEapMessage, m.range off r) }
        (rdTpMessageAuthenticator, List.replicate 16 0) := by
  have hfront : (requestFront n ea sta username state).foldl radiusAdd
      ⟨radiusAccessRequest, UInt8.ofNat i.val, vector, []⟩
        = requestStart n ea sta username state i vector := by
    have h := requestFront_size n ea sta username state
    rw [foldl_fits]
    · rfl
    · simp only [RadiusPacket.length, radiusHeaderLen, radiusMaxLen, List.length_nil]
      omega
  have hplaced :=
    foldl_placed m off (fragments length) (requestStart n ea sta username state i vector)
    fun r hr => (fragments_le hr).2
  rw [requestStart_length] at hplaced
  unfold requestPacket requestAttrs
  rw [List.foldl_append, List.foldl_append, hfront, Mem.slice_length,
    eapFragments_slice m length off length le_rfl, List.map_map, List.foldl_cons, List.foldl_nil]
  exact congrArg (fun p => radiusAdd p _) hplaced

end Request

/-! ## What is taken from a frame -/

/-- The octets of the range have been received. -/
def Frame.received (f : Frame) (r : Range) : Prop := r.2 = 0 ∨ (r.1 + r.2 : Int) ≤ f.bytes

instance (f : Frame) (r : Range) : Decidable (f.received r) := by
  unfold Frame.received
  infer_instance

/-- The fragments that are placed after `front` octets have been received. -/
def Frame.covers (f : Frame) (front : Nat) : Prop :=
  f.eapLength = 0 ∨ (eapolHeaderLen + eapReach front f.eapLength : Int) ≤ f.bytes

instance (f : Frame) (front : Nat) : Decidable (f.covers front) := by
  unfold Frame.covers
  infer_instance

/-- The identity of an EAP-Response/Identity. -/
def Frame.identity (f : Frame) : Range := (23, f.eapLength - eapHeaderLen - 1)

/-- The ranges of the frame that are copied for a request: the identity, and what is placed of the
packet. -/
def taken (n : RadiusClient) (ea : Bytes) (f : Frame) (sta username state : Bytes) : List Range :=
  (if f.eapType = eapIdentity then [f.identity] else [])
    ++ (placed (frontLength n ea sta username state) (fragments f.eapLength)).map
      fun r => (eapolHeaderLen + r.1, r.2)

/-- **No octet is read behind the frame** for the requests that are sent. -/
def NoOverRead (c : Ctx) (n : RadiusClient) (f : Frame) (w w' : World) : Prop :=
  ∀ new, w'.log = new ++ w.log → ∀ i username state eap, .radiusForward i username state eap ∈ new →
    ∀ r ∈ taken n c.cfg.ea f (w'.sta i).ea username state, f.received r

/-- The ranges of a packet whose length has not been compared with anything. -/
theorem taken_unchecked {n : RadiusClient} {f : Frame} {ea sta username state : Bytes}
    (h : f.eapType ≠ eapIdentity) :
    (∀ r ∈ taken n ea f sta username state, f.received r) ↔
    f.covers (frontLength n ea sta username state) := by
  have hreach := placed_reach f.eapLength (frontLength_le n ea sta username state)
    (f.bytes - eapolHeaderLen)
  have hpos : ∀ r ∈ fragments f.eapLength, r.2 ≠ 0 := by
    intro r hr
    obtain ⟨k, hk, rfl⟩ := List.mem_map.mp hr
    rw [List.mem_range] at hk
    dsimp only
    omega
  unfold taken
  rw [if_neg h, List.nil_append, List.forall_mem_map]
  have hrange : ∀ r ∈ placed (frontLength n ea sta username state) (fragments f.eapLength),
      (f.received (eapolHeaderLen + r.1, r.2) ↔ (r.1 + r.2 : Int) ≤ f.bytes - eapolHeaderLen) := by
    intro r hr
    have h0 := hpos r (placed_subset _ hr)
    unfold Frame.received
    push_cast
    omega
  constructor
  · intro hall
    rcases hreach.mp fun r hr => (hrange r hr).mp (hall r hr) with h0 | hle
    · exact .inl h0
    · exact .inr (by omega)
  · intro hor r hr
    refine (hrange r hr).mpr (hreach.mpr ?_ r hr)
    rcases hor with h0 | hle
    · exact .inl h0
    · exact .inr (by omega)

/-- With the length of the EAP packet compared, everything has been received. -/
theorem taken_checked {n : RadiusClient} {f : Frame} {ea sta username state : Bytes}
    (h : (f.eapLength : Int) ≤ f.bytes - eapolHeaderLen) :
    ∀ r ∈ taken n ea f sta username state, f.received r := by
  intro r hr
  unfold taken at hr
  unfold Frame.received
  unfold eapolHeaderLen at *
  rcases List.mem_append.mp hr with hr | hr
  · split at hr
    · rw [List.mem_singleton.mp hr]
      unfold Frame.identity eapHeaderLen
      push_cast
      omega
    · cases hr
  · obtain ⟨r', hr', rfl⟩ := List.mem_map.mp hr
    have hle := (fragments_le (placed_subset _ hr')).1
    push_cast
    omega

/-! ## The dispatcher -/

/-- The station of a frame: the one that is found, or a new one if there is a slot for it. -/
def sender (c : Ctx) (w : World) (ea : Bytes) : Option Sta :=
  match w.find ea with
  | some i => some (w.sta i)
  | none => (scanSlots w slots w.now none).map fun _ => newSta c ea w.now

/-- The station's port takes EAP packets. -/
def portOpen (preauth : Bool) (s : Sta) : Bool :=
  s.pae.state ≠ .held && (preauth || !checkPsk s.mode)

/-- An identity that is accepted; the last test is on the length of the EAP packet. -/
def identityTaken (f : Frame) (s : Sta) : Bool :=
  f.eapId.toNat = s.pae.id && f.eapCode = eapResponse && s.pae.state ≠ .authenticating
    && (f.eapLength : Int) ≤ f.bytes - eapolHeaderLen

/-- The EAP packet is forwarded. -/
def forwards (f : Frame) (s : Sta) : Bool :=
  eapHeaderLen + 1 ≤ f.length && (f.eapType ≠ eapIdentity || identityTaken f s)

/-- The frame is forwarded for the station, and is no identity. -/
def forwardsUnchecked (f : Frame) (preauth : Bool) (s : Sta) : Bool :=
  f.type = eapPacket && portOpen preauth s && eapHeaderLen + 1 ≤ f.length && f.eapType ≠ eapIdentity

/-- The user name in the request: an identity is recorded first. -/
def forwardedName (f : Frame) (s : Sta) : Bytes :=
  if f.eapType = eapIdentity ∧ eapHeaderLen + 1 < f.eapLength then f.mem.range 0 f.identity
  else s.pae.username

variable {c : Ctx} {w : World}

theorem radiusForward_log (i : Slot) (eap : Bytes) :
    wp (radiusForward c i eap) (fun _ w' => w'.log
      = .radiusForward i (w.sta i).pae.username (w.sta i).pae.radiusState eap :: w.log)
        (fun _ _ => False) w := by
  simp only [radiusForward, nasRand128, wp_bind, wp_getSta, wp_oracle, wp_modSta, wp_emit]
  rfl

/-- **What `eapol_dispatch_ex` hands over** to `radius_forward`. -/
theorem eapPacketCase_log (i : Slot) (f : Frame) :
    wp (eapPacketCase c f i) (fun _ w' => w'.log = if forwards f (w.sta i) = true
      then .radiusForward i (forwardedName f (w.sta i)) (w.sta i).pae.radiusState f.eap :: w.log
      else w.log) (fun _ _ => False) w := by
  have hsame : forwards f (w.sta i) = false → w.log = if forwards f (w.sta i) = true
      then .radiusForward i (forwardedName f (w.sta i)) (w.sta i).pae.radiusState f.eap :: w.log
          else w.log := by
    intro h
    rw [h, if_neg (by rintro ⟨⟩)]
  simp only [eapPacketCase, paeState, wp_bind, wp_ite, wp_pure, wp_getSta, wp_modSta]
  refine ⟨fun hshort => hsame ?_, fun hlen => ⟨fun htype => ?_, fun htype => ?_⟩⟩
  · simp only [forwards, Bool.and_eq_false_iff, decide_eq_false_iff_not]
    omega
  · -- An identity: three tests before it is recorded.
    have hiff : forwards f (w.sta i) = identityTaken f (w.sta i) := by
      simp [forwards, htype, not_lt.mp hlen]
    rw [hiff] at hsame ⊢
    refine ⟨fun hbogus => hsame ?_,
      fun hid => ⟨fun hst => hsame ?_, fun hst => ⟨fun hlong => hsame ?_,
      fun hfits => ?_⟩⟩⟩
    · rw [identityTaken]
      rcases hbogus with h | h <;> simp [h]
    · simp [identityTaken, hst]
    · simp only [identityTaken, Bool.and_eq_false_iff, decide_eq_false_iff_not]
      omega
    · rw [not_or, not_ne_iff, not_ne_iff] at hid
      have htaken : identityTaken f (w.sta i) = true := by
        simp only [identityTaken, Bool.and_eq_true, decide_eq_true_eq]
        exact ⟨⟨hid, hst⟩, by omega⟩
      rw [if_pos htaken]
      refine ⟨fun hname => ?_, fun hname => ?_⟩
      · refine wp_mono (radiusForward_log i _) (fun _ w' h => ?_) (fun _ _ h => h)
        rw [h, World.updSta_same, World.updSta_same, forwardedName, if_pos ⟨htype, hname⟩]
        rfl
      · refine wp_mono (radiusForward_log i _) (fun _ w' h => ?_) (fun _ _ h => h)
        rw [h, World.updSta_same, forwardedName, if_neg fun h => hname h.2]
        rfl
  · have hforwards : forwards f (w.sta i) = true := by
      simp [forwards, htype, not_lt.mp hlen]
    rw [if_pos hforwards, forwardedName, if_neg fun h => htype h.1]
    exact radiusForward_log i _

/-- Nothing is forwarded. -/
def Grant.noForward : Grant :=
  ⟨fun _ => True, fun _ => True, fun _ _ => True, fun _ => False, True, fun _ _ => trivial⟩

/-- The port entity and the mode of the station in a slot. -/
def World.port (w : World) (i : Slot) : Pae × Nat := ((w.sta i).pae, (w.sta i).mode)

theorem lookupSta_port (ea : Bytes) :
    wp (lookupSta c ea true) (fun x w' => x.map w'.port = (sender c w ea).map fun s =>
      (s.pae, s.mode))
      (fun _ _ => False) w := by
  simp only [lookupSta, wp_bind, wp_get]
  unfold sender
  cases hfind : w.find ea with
  | some i =>
      rw [World.find] at hfind
      rw [hfind]
      simp only [wp_bind, wp_modSta, wp_pure, Option.map_some, World.port, World.updSta_same]
  | none =>
      rw [World.find] at hfind
      rw [hfind]
      cases hscan : scanSlots w slots w.now none with
      | none => exact rfl
      | some found =>
          obtain ⟨i, evict⟩ := found
          have henter : ∀ w1 : World, wp (enterSta c ea w.now i)
              (fun _ w' => w'.port i = ((newSta c ea w.now).pae, (newSta c ea w.now).mode))
              (fun _ _ => False) w1 := by
            intro w1
            refine wp_mono (enterSta_spec c .gtkTimer w false w1 ea w.now i) (fun _ w2 h => ?_)
              (fun _ _ h => h)
            rw [World.port, h.2.1]
          simp only [Bool.not_true, Bool.false_eq_true, if_false, wp_ite, wp_bind, wp_pure]
          refine ⟨fun _ => ?_, fun _ => ?_⟩
          · refine wp_mono (tossSta_spec c false w i dot11RcBusy false) (fun _ w1 _ => ?_)
              (fun _ _ h => h)
            exact wp_mono (henter w1) (fun _ _ h => congrArg some h) (fun _ _ h => h)
          · exact wp_mono (henter w) (fun _ _ h => congrArg some h) (fun _ _ h => h)

theorem lookupSta_sender (ea : Bytes) :
    wp (lookupSta c ea true) (fun x w' => LogsGranted .noForward w w'
      ∧ x.map w'.port = (sender c w ea).map fun s => (s.pae, s.mode)) (fun _ _ => False) w := by
  have hlog : wp (lookupSta c ea true) (fun _ => LogsGranted .noForward w) (fun _ _ => True) w :=
    wp_mono (confined_lookupSta ea true w .refl) (fun _ _ h => Effects.logsGranted h)
      (fun _ _ _ => trivial)
  exact wp_mono (wp_and hlog (lookupSta_port ea)) (fun _ _ h => h) (fun _ _ h => h.2)

/-! ## Frames -/

theorem noOverRead_of_none {n : RadiusClient} {f : Frame} {w' : World}
    (h : LogsGranted .noForward w w') :
    NoOverRead c n f w w' := by
  obtain ⟨new, hlog, hnone⟩ := h
  intro new' hlog' i username state eap hmem
  rw [List.append_cancel_right (hlog'.symm.trans hlog)] at hmem
  exact (hnone _ hmem).elim

theorem noOverRead_one {n : RadiusClient} {f : Frame} {w1 w' : World} {i : Slot}
    {username state eap : Bytes} (h : LogsGranted .noForward w w1)
    (hlog : w'.log = .radiusForward i username state eap :: w1.log) :
    NoOverRead c n f w w'
      ↔ ∀ r ∈ taken n c.cfg.ea f (w'.sta i).ea username state, f.received r := by
  obtain ⟨new, hlog1, hnone⟩ := h
  have hnew : w'.log = (.radiusForward i username state eap :: new) ++ w.log := by
    rw [hlog, hlog1, List.cons_append]
  constructor
  · intro hall
    exact hall _ hnew _ _ _ _ List.mem_cons_self
  · intro hone new' hlog' j username' state' eap' hmem
    rw [List.append_cancel_right (hlog'.symm.trans hnew)] at hmem
    rcases List.mem_cons.mp hmem with heq | hmem
    · cases heq
      exact hone
    · exact (hnone _ hmem).elim

theorem eapolDispatchEx_other (f : Frame) (preauth : Bool) (h : f.type ≠ eapPacket) :
    LogsGranted .noForward w (finalState (eapolDispatchEx c f preauth) w) := by
  apply wp_finalState
  cases preauth with
  | true =>
      exact wp_mono (confined_preauth (fun he => absurd he h) w .refl)
        (fun _ _ he => Effects.logsGranted he) (fun _ _ he => Effects.logsGranted he)
  | false =>
      exact wp_mono (eapolDispatchEx_changes w (.inr trivial) fun he => absurd he h)
        (fun _ _ he => Changes.logsGranted he) (fun _ _ he => Changes.logsGranted he)

theorem eapPacketCase_noOverRead (n : RadiusClient) (f : Frame) {w2 : World} {i : Slot} {s : Sta}
    (h : LogsGranted .noForward w w2) (hpae : (w2.sta i).pae = s.pae) :
    wp (eapPacketCase c f i) (fun _ w' => NoOverRead c n f w w'
      ↔ (eapHeaderLen + 1 ≤ f.length → f.eapType ≠ eapIdentity →
        f.covers (frontLength n c.cfg.ea s.ea s.pae.username s.pae.radiusState)))
          (fun _ _ => False) w2 := by
  have hforwards : forwards f (w2.sta i) = forwards f s := by
    unfold forwards identityTaken
    rw [hpae]
  refine wp_mono (eapPacketCase_log i f) (fun _ w' hlog => ?_) (fun _ _ h => h)
  rw [hforwards, hpae] at hlog
  by_cases htype : f.eapType = eapIdentity
  · refine ⟨fun _ _ hne => absurd htype hne, fun _ => ?_⟩
    by_cases hfw : forwards f s = true
    · rw [if_pos hfw] at hlog
      refine (noOverRead_one h hlog).mpr (taken_checked ?_)
      simp only [forwards, htype, identityTaken, Bool.and_eq_true, Bool.or_eq_true,
        decide_eq_true_eq] at hfw
      rcases hfw.2 with hne | hid
      · exact absurd rfl hne
      · exact hid.2
    · rw [if_neg hfw] at hlog
      exact noOverRead_of_none (h.trans (logsGranted_same hlog))
  · by_cases hlen : eapHeaderLen + 1 ≤ f.length
    · have hfw : forwards f s = true := by simp [forwards, htype, hlen]
      have hname : forwardedName f (w2.sta i) = s.pae.username := by
        rw [forwardedName, if_neg fun hid => htype hid.1, hpae]
      rw [if_pos hfw, hname] at hlog
      rw [noOverRead_one h hlog, taken_unchecked htype, frontLength_sta n c.cfg.ea _ _ _ s.ea]
      exact ⟨fun hor _ _ => hor, fun himp => himp hlen htype⟩
    · have hfw : ¬forwards f s = true := by simp [forwards, hlen]
      rw [if_neg hfw] at hlog
      exact ⟨fun _ hl => absurd hl hlen,
        fun _ => noOverRead_of_none (h.trans (logsGranted_same hlog))⟩

/-- What the condition says of the station. -/
def Covered (c : Ctx) (n : RadiusClient) (f : Frame) (preauth : Bool) (s : Sta) : Prop :=
  forwardsUnchecked f preauth s = true →
    f.covers (frontLength n c.cfg.ea s.ea s.pae.username s.pae.radiusState)

/-- **Nothing is read behind the frame** exactly if it is not forwarded unchecked, or is as long as
the fragments that are placed reach. -/
theorem eap_forward_iff (c : Ctx) (n : RadiusClient) (f : Frame) (preauth : Bool) (w : World) :
    NoOverRead c n f w (finalState (eapolDispatchEx c f preauth) w)
      ↔ ∀ s, sender c w f.shost = some s → Covered c n f preauth s := by
  by_cases htype : f.type = eapPacket
  · apply wp_finalState (P := fun w' => NoOverRead c n f w w' ↔ _)
    unfold eapolDispatchEx
    rw [wp_bind]
    refine wp_mono (lookupSta_sender f.shost) (fun x w1 h => ?_) (fun _ _ h => h.elim)
    obtain ⟨hlog, hport⟩ := h
    cases x with
    | none =>
        rw [Option.map_none, eq_comm, Option.map_eq_none_iff] at hport
        rw [hport]
        exact ⟨fun _ s hs => (by cases hs), fun _ => noOverRead_of_none hlog⟩
    | some i =>
        obtain ⟨s, hs, hsta⟩ := Option.map_eq_some_iff.mp hport.symm
        obtain ⟨hpae, hmode⟩ := Prod.ext_iff.mp hsta
        dsimp only [World.port] at hpae hmode
        have hsome : (∀ s', some s = some s' → Covered c n f preauth s') ↔
            Covered c n f preauth s := by
          simp
        rw [hs, hsome]
        -- Past the tests, only the EAP packet matters.
        have hpast : ∀ w2 : World, LogsGranted .noForward w w2 → (w2.sta i).pae = s.pae →
            portOpen preauth s = true → wp (eapPacketCase c f i)
              (fun _ w' => NoOverRead c n f w w' ↔ Covered c n f preauth s)
              (fun _ w' => NoOverRead c n f w w' ↔ Covered c n f preauth s) w2 := by
          intro w2 hw2 hp hopen
          refine wp_mono (eapPacketCase_noOverRead n f hw2 hp) (fun _ w' h => h.trans ?_)
            (fun _ _ h => h.elim)
          simp [Covered, forwardsUnchecked, htype, hopen]
        have hclosed : portOpen preauth s = false →
            (NoOverRead c n f w w1 ↔ Covered c n f preauth s) := by
          intro hopen
          refine ⟨fun _ hf => ?_, fun _ => noOverRead_of_none hlog⟩
          simp [forwardsUnchecked, hopen] at hf
        have hkey : ¬(eapPacket = eapolKey) := by decide
        simp only [wp_bind, wp_getSta, wp_ite, wp_pure, wp_modSta, htype,
          if_true, ← hpae, ← hmode, hkey,
          decide_false, Bool.false_and, Bool.false_eq_true, if_false]
        refine ⟨fun hheld => hclosed ?_,
          fun hheld => ⟨fun hpre => ⟨fun hpsk => hclosed ?_, fun hpsk => ?_⟩,
          fun hpre => ?_⟩⟩
        · simp [portOpen, hheld]
        · rw [Bool.not_eq_true'] at hpre
          simp [portOpen, hpre, hpsk]
        · refine hpast _ hlog ?_ ?_
          · rw [World.updSta_same, hpae]
          · simp [portOpen, hheld, hpsk]
        · refine hpast _ hlog ?_ ?_
          · rw [World.updSta_same, hpae]
          · rw [Bool.not_eq_true', Bool.not_eq_false] at hpre
            simp [portOpen, hheld, hpre]
  · refine ⟨fun _ s _ hf => ?_, fun _ => noOverRead_of_none (eapolDispatchEx_other f preauth htype)⟩
    simp [forwardsUnchecked, htype] at hf

/-! ## Concrete frames -/

/-- An EAP response of type 13 that says it has `length` octets, of which five have
been received. -/
def shortResponse (length : Nat) : Frame :=
  ⟨Mem.ofBytes ([2, 0, 0, 0, 0, 1] ++ [2, 0, 0, 0, 0, 9] ++ [0x88, 0x8e] ++ [1, 0, 0, 5, 2, 0] ++
    be16 length
    ++ [13]), 23⟩

set_option maxRecDepth 100000 in
/-- **A longer EAP length** than the frame has octets: six octets are copied of five. -/
theorem response_overread :
    ¬∀ (c : Ctx) (n : RadiusClient) (f : Frame) (preauth : Bool) (w : World),
    NoOverRead c n f w (finalState (eapolDispatchEx c f preauth) w) := by
  intro h
  have hcovered :=
    (eap_forward_iff radiusContext plainClient (shortResponse 6) false (initWorld radiusContext)).mp
    (h _ _ _ _ _)
  have hsender : sender radiusContext (initWorld radiusContext) (shortResponse 6).shost
      = some (newSta radiusContext [2, 0, 0, 0, 0, 9] 0) := by
    decide +kernel
  have hunchecked :
      forwardsUnchecked (shortResponse 6) false (newSta radiusContext [2, 0, 0, 0, 0, 9] 0)
      = true := by
    decide +kernel
  have hcovers := hcovered _ hsender hunchecked
  revert hcovers
  decide +kernel

end BroadcomWl.Nas
