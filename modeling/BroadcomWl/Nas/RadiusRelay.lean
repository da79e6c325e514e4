import BroadcomWl.Nas.RadiusWalk
import BroadcomWl.Nas.ResponseCheck

/-!
# The EAP message of a RADIUS response

A server sends an EAP message in fragments, one to an attribute; `radius_dispatch` gathers them in
an array of `RADIUS_MAX_ATTRIBUTES` entries, the first of which is for the EAPOL header, and sends
them to the station as one frame. What does not fit into the array is left out. Besides, the loop
takes the second and later sub-attributes of a vendor-specific attribute for attributes of the
packet.

**`relayed_exact_iff`.** The frame carries the EAP message exactly if the first fifteen fragments
that the loop comes across make up the message. -/

namespace BroadcomWl.Nas

open BroadcomWl.Lib BroadcomWl.Lib.Tlv Relation

/-! ## Packets of a server -/

/-- An attribute as a server sends it. A vendor-specific one has the number of the vendor and at
least one sub-attribute. -/
inductive ServerAttr
  | plain (a : Attr)
  | vendor (id : Bytes) (first : Attr) (rest : List Attr)

namespace ServerAttr

def attr : ServerAttr → Attr
  | plain a => a
  | vendor id first rest => (rdTpVendorSpecific, id ++ encodeAll (first :: rest))

/-- A plain attribute of the vendor-specific type is too short to hold a sub-attribute; and so is a
later sub-attribute that a vendor gives that type. -/
def Ok : ServerAttr → Prop
  | plain a => Fits a ∧ (a.1 = rdTpVendorSpecific → a.2.length < 6)
  | vendor id first rest => id.length = 4 ∧ (id ++ encodeAll (first :: rest)).length ≤ 253
      ∧ ∀ a ∈ rest, a.1 = rdTpVendorSpecific → a.2.length < 6

/-- The fragments that the loop comes across in an attribute. -/
def fragments : ServerAttr → List Bytes
  | plain a => (eapFragment a).toList
  | vendor _ _ rest => rest.filterMap eapFragment

/-- The passes that the loop makes over an attribute. -/
def passes : ServerAttr → List Pass
  | plain a => [.plain a]
  | vendor id first rest =>
    .vendor (UInt8.ofNat (2 + (id ++ encodeAll (first :: rest)).length)) id first :: rest.map .plain

end ServerAttr

/-- The EAP message in the packet. -/
def eapMessage (as : List ServerAttr) : Bytes := valuesOf rdTpEapMessage (as.map ServerAttr.attr)

/-- A well-formed response of a server with these attributes. -/
structure ServerPacket (m : Mem) (as : List ServerAttr) : Prop where
  ok : ∀ a ∈ as, a.Ok
  length : m.u16 2 = radiusHeaderLen + (encodeAll (as.map ServerAttr.attr)).length
  le : m.u16 2 ≤ radiusMaxLen
  attrs : m.Holds radiusHeaderLen (encodeAll (as.map ServerAttr.attr))

/-- This is logged in the step. -/
def Logged (c : Ctx) (w : World) (e : Nat × Event) (o : Out) : Prop :=
  ∃ new, (step c w e).log = new ++ w.log ∧ o ∈ new

/-! ## The passes over a packet -/

theorem Pass.Ok.mono {p : Pass} {n n' : Nat} (h : p.Ok n) (hle : n ≤ n') : p.Ok n' := by
  cases p with
  | plain a => exact h
  | vendor length id first => exact ⟨h.1, h.2.1, h.2.2.1, h.2.2.2.trans (by omega)⟩

theorem Passable.append {ps qs : List Pass} (hp : Passable ps) (hq : Passable qs) :
    Passable (ps ++ qs) := by
  induction ps with
  | nil => exact hq
  | cons p ps ih =>
      refine ⟨hp.1.mono ?_, ih hp.2⟩
      show _ ≤ ((ps ++ qs).flatMap Pass.octets).length
      rw [List.flatMap_append, List.length_append]
      exact Nat.le_add_right _ _

theorem octets_plain (as : List Attr) : (as.map Pass.plain).flatMap Pass.octets = encodeAll as := by
  rw [List.flatMap_map]
  rfl

theorem passable_plain {as : List Attr}
    (h : ∀ a ∈ as, Fits a ∧ (a.1 = rdTpVendorSpecific → a.2.length < 6)) :
    Passable (as.map .plain) := by
  induction as with
  | nil => trivial
  | cons a as ih => exact ⟨h a (by simp), ih fun b hb => h b (by simp [hb])⟩

namespace ServerAttr

theorem octets_passes (a : ServerAttr) : a.passes.flatMap Pass.octets = encode a.attr := by
  cases a with
  | plain a => exact List.append_nil _
  | vendor id first rest =>
      simp only [passes, List.flatMap_cons, octets_plain, Pass.octets, attr, encode, encodeAll_cons,
        List.cons_append, List.append_assoc]

theorem passable {a : ServerAttr} (h : a.Ok) : Passable a.passes := by
  cases a with
  | plain a => exact ⟨h, trivial⟩
  | vendor id first rest =>
      obtain ⟨hid, hle, hrest⟩ := h
      have hle' : id.length + (2 + first.2.length) + (encodeAll rest).length ≤ 253 := by
        rw [encodeAll_cons, List.length_append, List.length_append, encode_length] at hle
        omega
      have hoctet : (UInt8.ofNat (2 + (id ++ encodeAll (first :: rest)).length)).toNat
          = 8 + first.2.length + (encodeAll rest).length := by
        rw [UInt8.toNat_ofNat', encodeAll_cons, List.length_append, List.length_append,
          encode_length]
        omega
      refine ⟨⟨hid, ?_, ?_, ?_⟩, passable_plain fun a ha => ⟨?_, hrest a ha⟩⟩
      · unfold Fits
        omega
      · omega
      · rw [octets_plain]
        omega
      · have := length_le_encodeAll ha
        unfold Fits
        omega

theorem fragments_passes (a : ServerAttr) : a.passes.filterMap Pass.fragment = a.fragments := by
  cases a with
  | plain a =>
      simp only [passes, fragments, List.filterMap_cons, List.filterMap_nil, Pass.fragment]
      cases eapFragment a <;> rfl
  | vendor id first rest =>
      simp only [passes, fragments, List.filterMap_cons, Pass.fragment, List.filterMap_map]
      rfl

end ServerAttr

/-- All passes over a packet. -/
def allPasses (as : List ServerAttr) : List Pass := as.flatMap ServerAttr.passes

theorem octets_allPasses (as : List ServerAttr) :
    (allPasses as).flatMap Pass.octets = encodeAll (as.map ServerAttr.attr) := by
  induction as with
  | nil => rfl
  | cons a as ih =>
      rw [allPasses, List.flatMap_cons, List.flatMap_append, ServerAttr.octets_passes,
        List.map_cons, encodeAll_cons]
      rw [← ih]
      rfl

theorem passable_allPasses {as : List ServerAttr} (h : ∀ a ∈ as, a.Ok) :
    Passable (allPasses as) := by
  induction as with
  | nil => trivial
  | cons a as ih =>
      rw [allPasses, List.flatMap_cons]
      exact (ServerAttr.passable (h a (by simp))).append (ih fun b hb => h b (by simp [hb]))

theorem fragments_allPasses (as : List ServerAttr) :
    (allPasses as).filterMap Pass.fragment = as.flatMap ServerAttr.fragments := by
  rw [allPasses, List.filterMap_flatMap]
  simp only [ServerAttr.fragments_passes]

theorem Pass.fragment_length {p : Pass} {v : Bytes} (h : p.fragment = some v) :
    v.length + 2 ≤ p.octets.length := by
  cases p with
  | plain a =>
      have h' : eapFragment a = some v := h
      unfold eapFragment at h'
      split_ifs at h'
      cases h'
      show _ ≤ (encode a).length
      rw [encode_length]
      omega
  | vendor length id first => cases h

theorem fragments_length (ps : List Pass) :
    (ps.filterMap Pass.fragment).flatten.length ≤ (ps.flatMap Pass.octets).length := by
  induction ps with
  | nil => exact le_refl _
  | cons p ps ih =>
      rw [List.flatMap_cons, List.length_append, List.filterMap_cons]
      cases h : p.fragment with
      | none => exact ih.trans (Nat.le_add_left _ _)
      | some v =>
          have := Pass.fragment_length h
          simp only [List.flatten_cons, List.length_append]
          omega

theorem passes_length (ps : List Pass) (h : Passable ps) :
    ps.length ≤ (ps.flatMap Pass.octets).length := by
  induction ps with
  | nil => exact le_refl _
  | cons p ps ih =>
      have hone : 1 ≤ p.octets.length := by
        cases p with
        | plain a => exact Nat.succ_le_succ (Nat.zero_le _)
        | vendor length id first => exact Nat.succ_le_succ (Nat.zero_le _)
      have := ih h.2
      rw [List.flatMap_cons, List.length_append, List.length_cons]
      omega

/-! ## What is gathered -/

theorem gather_frags (code : RadiusCode) (l : List RadiusAttr) (g : Gathered) (ok : Bool)
    {g' : Gathered} {ok' : Bool} (hfull : g.frags.length ≤ radiusMaxAttributes - 1)
    (hlen : g.length = g.frags.flatten.length % 65536) (h : gather code l g ok = some (g', ok')) :
    g'.frags = (g.frags ++ l.filterMap RadiusAttr.eapValue).take (radiusMaxAttributes - 1)
      ∧ g'.length = g'.frags.flatten.length % 65536 := by
  induction l generalizing g ok with
  | nil =>
      cases h
      refine ⟨?_, hlen⟩
      rw [List.filterMap_nil, List.append_nil, List.take_of_length_le hfull]
  | cons a l ih =>
      cases a with
      | messageAuthenticator valid =>
          cases valid with
          | true =>
              exact ih { g with authenticated := true } _ hfull hlen h
          | false => cases h
      | eapMessage first id v =>
          unfold gather at h
          dsimp only at h
          by_cases hroom : g.frags.length + 1 < radiusMaxAttributes
          · have hg : g.addFragment first id v = { g with
                eap := some (g.eap.getD (first, id)), length := (g.length + v.length) % 65536
                frags := g.frags ++ [v] } := by
              unfold Gathered.addFragment
              dsimp only
              rw [if_pos hroom]
            rw [hg] at h
            obtain ⟨h1, h2⟩ := ih _ _ (by simp; omega) (by simp [hlen]) h
            refine ⟨?_, h2⟩
            rw [h1]
            simp [RadiusAttr.eapValue]
          · have hg : g.addFragment first id v =
                { g with eap := some (g.eap.getD (first, id)) } := by
              unfold Gathered.addFragment
              dsimp only
              rw [if_neg hroom]
            rw [hg] at h
            obtain ⟨h1, h2⟩ := ih { g with eap := some (g.eap.getD (first, id)) } _ hfull hlen h
            refine ⟨?_, h2⟩
            have hfull' : radiusMaxAttributes - 1 ≤ g.frags.length := by omega
            rw [h1, List.take_append_of_le_length hfull', List.take_append_of_le_length hfull']
      | bad => cases h
      | mppeSend plain =>
          unfold gather at h
          dsimp only at h
          split_ifs at h
          · exact ih { g with mppeSend := some plain } _ hfull hlen h
          · exact ih _ _ hfull hlen h
      | mppeRecv plain =>
          unfold gather at h
          dsimp only at h
          split_ifs at h
          · exact ih { g with mppeRecv := some plain } _ hfull hlen h
          · exact ih _ _ hfull hlen h
      | _ => exact ih _ _ hfull hlen h

theorem gather_ends {code : RadiusCode} {l : List RadiusAttr} {a : RadiusAttr} {g : Gathered}
    {ok : Bool} (ha : a ∈ l) (hends : a.ends = true) : gather code l g ok = none := by
  rw [← Option.isNone_iff_eq_none, ← Option.not_isSome, gather_isSome]
  cases a with
  | messageAuthenticator valid =>
      cases valid with
      | true => cases hends
      | false => simp [ha]
  | bad => simp [ha]
  | _ => cases hends

/-! ## What is relayed -/

variable {c : Ctx} {g : Grant} {w w' : World}

theorem relayed_gathered {r : RadiusResponse} {now : Nat} {ea : Bytes} {preauth : Bool}
    {length : Nat} {eap : Bytes} (h : Logged c w (now, .radius r) (.relay ea preauth length eap)) :
    relays w r length eap := by
  obtain ⟨new, hlog, hmem⟩ := h
  cases hlive : w.halted with
  | true =>
      rw [step, if_pos hlive] at hlog
      rw [List.self_eq_append_left.mp hlog] at hmem
      cases hmem
  | false =>
      have hgrants : Grants c ⟨fun _ => True, fun _ => True, relays w r, fun _ => True, True,
          fun _ _ => trivial⟩ w
          (.radius r) := by
        refine ⟨fun _ _ _ _ _ => trivial, fun _ _ _ => trivial, fun r' length' eap' hr h => ?_,
          fun _ _ _ => trivial⟩
        cases hr
        exact h
      rcases step_changes (t := now) hlive hgrants with hch | ⟨hev, -⟩
      · obtain ⟨new', hlog', hgranted⟩ := Effects.logsGranted (hch.effects id)
        have hnew : new = new' := List.append_cancel_right (hlog.symm.trans hlog')
        rw [hnew] at hmem
        exact hgranted _ hmem
      · cases hev

/-- **The EAP message of a response** reaches the station exactly if the first fifteen fragments
that the loop comes across make it up. -/
theorem relayed_exact_iff (c : Ctx) (k : RadiusKeys) (w : World) (now : Nat) {m : Mem}
    {as : List ServerAttr} (h : ServerPacket m as) :
    ∃ r, parseResponse k m = some r ∧ ∀ ea preauth length eap,
      Logged c w (now, .radius r) (.relay ea preauth length eap) →
        ((eap = eapMessage as ∧ length = (eapMessage as).length)
          ↔ ((as.flatMap ServerAttr.fragments).take (radiusMaxAttributes - 1)).flatten =
            eapMessage as) := by
  have hpassable := passable_allPasses h.ok
  have hoctets := octets_allPasses as
  have hfuel := passes_length _ hpassable
  rw [hoctets] at hfuel
  obtain ⟨l, hl, hl'⟩ := parse_passes (k := k) (m := m) (m.u16 2) (radiusCode (m 0))
    (allPasses as) (m.u16 2 + 1) radiusHeaderLen
    ((m.u16 2 : Int) - radiusHeaderLen) hpassable (by rw [hoctets]; exact h.attrs)
    (by rw [hoctets, h.length]; push_cast; omega) (by rw [h.length]; omega)
  refine ⟨⟨m 1, radiusCode (m 0), l⟩, ?_, fun ea preauth length eap hlogged => ?_⟩
  · unfold parseResponse
    dsimp only
    rw [hl]
    rfl
  obtain ⟨-, x, ok, hx, -, hlength, heap⟩ := relayed_gathered hlogged
  change gather (radiusCode (m 0)) l .empty _ = some (x, ok) at hx
  -- The loop was not ended, so it has come across all fragments.
  have hfragments : l.filterMap RadiusAttr.eapValue = as.flatMap ServerAttr.fragments := by
    rcases hl' with ⟨a, ha, hends⟩ | hl'
    · rw [gather_ends ha hends] at hx
      cases hx
    · rw [hl', fragments_allPasses]
  obtain ⟨hfrags, hlen⟩ := gather_frags _ _ _ _ (Nat.zero_le _) rfl hx
  rw [hfragments] at hfrags
  have hbound : x.frags.flatten.length < 65536 := by
    have h1 := fragments_length (allPasses as)
    rw [hoctets, fragments_allPasses] at h1
    have h2 : x.frags.flatten.length ≤ (as.flatMap ServerAttr.fragments).flatten.length := by
      rw [hfrags]
      exact (List.take_sublist _ _).flatten.length_le
    have h3 := h.le
    have h4 := h.length
    unfold radiusMaxLen at h3
    omega
  rw [hlength, heap, hlen, Nat.mod_eq_of_lt hbound, hfrags]
  exact ⟨fun heq => heq.1, fun heq => ⟨heq, congrArg List.length heq⟩⟩

/-! ## Concrete responses -/

/-- The secret is `secret`, and the request had an authenticator of zeros. -/
def plainKeys : RadiusKeys where
  md5 := BroadcomWl.Crypto.md5
  hmacMd5 := BroadcomWl.Crypto.hmacMd5
  secret := [0x73, 0x65, 0x63, 0x72, 0x65, 0x74]
  vector := List.replicate 16 0

/-- An Access-Challenge for request 0, with this checksum and the fragments of an EAP message. -/
def challengeOctets (mac : Bytes) (frags : List Bytes) : Bytes :=
  let attrs := encodeAll ((rdTpMessageAuthenticator, mac) :: frags.map fun v => (rdTpEapMessage, v))
  [radiusAccessChallenge, 0] ++ be16 (radiusHeaderLen + attrs.length) ++
    List.replicate 16 0 ++ attrs

/-- The challenge with its checksum. -/
def signedChallenge (frags : List Bytes) : Mem :=
  Mem.ofBytes (challengeOctets
    (plainKeys.hmacMd5 (challengeOctets (List.replicate 16 0) frags) plainKeys.secret) frags)

/-- Its attributes. -/
def challengeAttrs (frags : List Bytes) : List ServerAttr :=
  .plain (rdTpMessageAuthenticator,
      plainKeys.hmacMd5 (challengeOctets (List.replicate 16 0) frags) plainKeys.secret)
    :: frags.map fun v => .plain (rdTpEapMessage, v)

instance (a : ServerAttr) : Decidable a.Ok := by
  apply @ServerAttr.casesOn (fun a => Decidable a.Ok) a
  all_goals
    intros
    dsimp only [ServerAttr.Ok, Fits]
    infer_instance

/-- A station has sent an EAP response, which is pending at the server. -/
def asked : List (Nat × Event) := [(1, .eapol challengeResponse)]

set_option maxRecDepth 100000 in
theorem challenge_wellFormed : ServerPacket (signedChallenge [[1, 0, 0, 5], [9]])
    (challengeAttrs [[1, 0, 0, 5], [9]]) :=
  ⟨by decide +kernel, by decide +kernel, by decide +kernel, by unfold Mem.Holds; decide +kernel⟩

theorem relayed_exact_iff_short :
    ∃ r, parseResponse plainKeys (signedChallenge [[1, 0, 0, 5], [9]]) = some r ∧
      ∀ ea preauth length eap,
        Logged radiusContext (run (step radiusContext) (initWorld radiusContext) asked)
        (2, .radius r) (.relay ea preauth length eap) →
        ((eap = eapMessage (challengeAttrs [[1, 0, 0, 5], [9]])
            ∧ length = (eapMessage (challengeAttrs [[1, 0, 0, 5], [9]])).length)
          ↔ (((challengeAttrs [[1, 0, 0, 5], [9]]).flatMap ServerAttr.fragments).take
              (radiusMaxAttributes - 1)).flatten =
                eapMessage (challengeAttrs [[1, 0, 0, 5], [9]])) :=
  relayed_exact_iff radiusContext plainKeys _ 2 challenge_wellFormed

/-- An EAP message in sixteen fragments. -/
def sixteenFragments : List Bytes := List.replicate 16 [1]

set_option maxRecDepth 100000 in
/-- **Sixteen fragments**: the last one is left out. -/
theorem sixteenth_fragment_dropped :
    ¬∀ (c : Ctx) (k : RadiusKeys) (es : List (Nat × Event)) (now : Nat)
    (m : Mem) (as : List ServerAttr), ServerPacket m as → ∀ r, parseResponse k m = some r →
      ∀ ea preauth length eap, Logged c (run (step c) (initWorld c) es) (now, .radius r)
        (.relay ea preauth length eap) → eap = eapMessage as ∧ length = (eapMessage as).length := by
  intro h
  have hpacket :
      ServerPacket (signedChallenge sixteenFragments) (challengeAttrs sixteenFragments) :=
    ⟨by decide +kernel, by decide +kernel, by decide +kernel, by unfold Mem.Holds; decide +kernel⟩
  let r : RadiusResponse :=
    ⟨0, .challenge, .messageAuthenticator true :: List.replicate 15 (.eapMessage 1 79 [1]) ++
      [.eapMessage 1 0 [1]]⟩
  have hparse : parseResponse plainKeys (signedChallenge sixteenFragments) = some r := by
    decide +kernel
  have hlogged : Logged radiusContext (run (step radiusContext) (initWorld radiusContext) asked)
      (2, .radius r) (.relay [2, 0, 0, 0, 0, 9] false 15 (List.replicate 15 1)) := by
    refine ⟨[.relay [2, 0, 0, 0, 0, 9] false 15 (List.replicate 15 1)], ?_,
      List.mem_singleton.mpr rfl⟩
    decide +kernel
  obtain ⟨-, hlength⟩ := h radiusContext plainKeys asked 2 _ _ hpacket r hparse _ _ _ _ hlogged
  revert hlength
  decide +kernel

end BroadcomWl.Nas
