import Mathlib
import BroadcomWl.Eapd.Recv
import BroadcomWl.Eapd.StationTable
import BroadcomWl.Nas.RadiusWalk

/-!
# The relay of EAPOL frames

An event of the driver that encapsulates an EAPOL frame is turned into that frame within the buffer,
and the frame is handed to an application. `eapolFrame` is the frame that the event stands for,
`recipient` says which application gets it, and `examined` how far into the packet the dispatcher
looks.

**`eapol_relay_iff`.** The moves within the buffer corrupt nothing, but the length of the data is
what the packet says: exactly if the octets examined were received, and so were all the data of a
frame that an application gets, everything that is examined or forwarded lies within the packet and
what is forwarded is the frame. -/

namespace BroadcomWl.Eapd

open BroadcomWl.Lib
open BroadcomWl.Nas (Bytes Mem eapPacket eapolStart eapolLogoff eapRequest eapResponse eapSuccess
  eapFailure
  eapIdentity)

/-! ## The frame of an event -/

section

variable (m : Mem)

/-- `ntohl` of the `datalen` of the packet. -/
def datalen : Nat := m.u16 60 * 65536 + m.u16 62

/-- The packet carries an EAPOL frame. -/
def IsEapolEvent : Prop :=
  m.u16 38 = bcmilcpBcmSubtypeEvent ∧ m.u16 44 * 65536 + m.u16 46 = wlcEEapolMsg

instance : Decidable (IsEapolEvent m) := inferInstanceAs (Decidable (_ ∧ _))

/-- The name of the interface, the destination, the station, the EAPOL type, and the data of the
event. -/
def eapolFrame : Bytes :=
  m.slice 70 16 ++ (m.slice 16 6 ++ (m.slice 64 6 ++ ([0x88, 0x8e] ++ m.slice 88 (datalen m))))

/-- A WPS exchange is under way. -/
def inWps (s : Sta) : Bool := s.paeState = .identity && (s.mode = .wps || s.mode = .wpsEnr)

/-- The frame is one of a WPS exchange that is under way. -/
def wpsExchange (s : Sta) : Bool :=
  inWps s && m 89 = eapPacket && (m 96 = eapExpanded || m 92 = eapFailure)

def sesIdentity : Bool :=
  m 89 = eapPacket && m 96 = eapExpanded && m 99 = 0x3d && m 98 = 0x11 && m 97 = 0

def wscIdentity : Bool := m.slice 97 29 == enrolleeIdentity || m.slice 97 30 == registrarIdentity

/-- Who gets the frame of a station. -/
def recipient (s : Sta) : Option App :=
  if wpsExchange m s then
    if s.mode = .wpsEnr && (m 92 = eapRequest || m 92 = eapFailure) ||
        s.mode = .wps && m 92 = eapResponse then some .wps
    else none
  else if sesIdentity m then some .ses
  else if m 89 = eapPacket then
    if m.u16 90 < 5 then none
    else if m 96 = eapIdentity && (wscIdentity m || s.mode = .wpsEnr) then some .wps
    else some .nas
  else if m 89 = eapolStart then none
  else if m 89 = eapolLogoff then
    if s.mode = .wps || s.mode = .wpsEnr then some .wps
    else if s.mode = .nas || s.mode = .nasPsk then some .nas
    else none
  else some .nas

/-- How many octets of the packet are looked at to decide that. -/
def examined (s : Sta) : Nat :=
  if m 89 ≠ eapPacket then 74
  else if wpsExchange m s then 81
  else if m 96 = eapExpanded then 84
  else if m 96 = eapIdentity && 5 ≤ m.u16 90 then
    if m.slice 97 29 == enrolleeIdentity then 110 else 111
  else 81

end

/-! ## The buffer -/

/-- The buffer with the frame in it. -/
def rebuilt (m : Mem) : Mem := fun i =>
  if 58 ≤ i ∧ i < 74 then m (i + 12)
  else if 74 ≤ i ∧ i < 80 then m (i - 58)
  else if 80 ≤ i ∧ i < 86 then m (i - 16)
  else if i = 86 then 0x88
  else if i = 87 then 0x8e
  else m i

theorem rebuilt_data (m : Mem) {i : Nat} (h : 88 ≤ i) : rebuilt m i = m i := by
  unfold rebuilt
  rw [if_neg (by omega), if_neg (by omega), if_neg (by omega), if_neg (by omega), if_neg (by omega)]

/-- **The moves build the frame**, and what they read is the header. -/
theorem rebuildEapol_spec (w : Work) :
    wp (rebuildEapol ifnamsiz)
      (fun _ w' => w'.packet = rebuilt w.packet ∧ w'.stas = w.stas ∧
        w'.log = .read 64 6 :: .read 16 14 :: .read 70 16 :: w.log)
      (fun _ _ => False) w := by
  simp only [rebuildEapol, ifnamsiz, Nat.reduceAdd, Nat.reduceSub, wp_bind, wp_octets,
    wp_memmove, wp_store]
  refine ⟨?_, rfl, rfl⟩
  funext i
  unfold rebuilt
  by_cases hname : 58 ≤ i ∧ i < 58 + 16
  · rw [if_pos hname, store_packet _ _ (by rwa [Nas.Mem.slice_length]),
      Nas.Mem.slice_getD _ _ (by omega)]
    congr 1
    omega
  · rw [if_neg hname, store_packet_of_not _ _ (by rwa [Nas.Mem.slice_length])]
    by_cases haddr : 80 ≤ i ∧ i < 80 + 6
    · -- the address of the station is still where it was
      rw [store_packet _ _ (by rwa [Nas.Mem.slice_length]), Nas.Mem.slice_getD _ _ (by omega),
        if_neg (by omega), if_pos haddr]
      rw [store_packet_of_not _ _ (by simp only [List.length_cons, List.length_nil]; omega),
        move_packet_of_not _ _ _ (by omega)]
      change w.packet (64 + (i - 80)) = _
      congr 1
      omega
    · rw [store_packet_of_not _ _ (by rwa [Nas.Mem.slice_length])]
      change ((Work.move _ 74 16 14).store 86 [0x88, 0x8e]).packet i = _
      by_cases htype : i = 86 ∨ i = 87
      · rcases htype with rfl | rfl <;> rfl
      · rw [store_packet_of_not _ _ (by simp only [List.length_cons, List.length_nil]; omega)]
        by_cases hdest : 74 ≤ i ∧ i < 74 + 14
        · rw [move_packet _ _ _ hdest, if_pos (by omega)]
          change w.packet (16 + (i - 74)) = _
          congr 1
          omega
        · rw [move_packet_of_not _ _ _ hdest, if_neg (by omega), if_neg (by omega),
            if_neg (by omega), if_neg (by omega)]
          rfl

theorem eapolFrame_length (m : Mem) : (eapolFrame m).length = datalen m + 30 := by
  simp only [eapolFrame, List.length_append, Nas.Mem.slice_length, List.length_cons,
    List.length_nil]
  omega

theorem rebuilt_ifname (m : Mem) : (rebuilt m).slice 58 16 = m.slice 70 16 := by
  refine Nas.Mem.slice_congr fun i hi => ?_
  unfold rebuilt
  rw [if_pos (by omega)]
  congr 1
  omega

theorem rebuilt_dhost (m : Mem) : (rebuilt m).slice 74 6 = m.slice 16 6 := by
  refine Nas.Mem.slice_congr fun i hi => ?_
  unfold rebuilt
  rw [if_neg (by omega), if_pos (by omega)]
  congr 1
  omega

theorem rebuilt_shost (m : Mem) : (rebuilt m).slice 80 6 = m.slice 64 6 := by
  refine Nas.Mem.slice_congr fun i hi => ?_
  unfold rebuilt
  rw [if_neg (by omega), if_neg (by omega), if_pos (by omega)]
  congr 1
  omega

theorem holds_slice {m m' : Mem} {off off' n : Nat} (h : m'.slice off' n = m.slice off n) :
    m'.Holds off' (m.slice off n) := by
  unfold Nas.Mem.Holds
  rw [Nas.Mem.slice_length, h]

/-- **The frame** stands in the buffer, behind the name of the interface. -/
theorem rebuilt_frame (m : Mem) : (rebuilt m).slice 58 (datalen m + 30) = eapolFrame m := by
  have hdata : (rebuilt m).slice 88 (datalen m) = m.slice 88 (datalen m) :=
    Nas.Mem.slice_congr fun i _ => rebuilt_data m (by omega)
  have hholds : (rebuilt m).Holds 58 (eapolFrame m) := by
    simp only [eapolFrame, Nas.Mem.holds_append, Nas.Mem.slice_length, List.length_cons,
      List.length_nil]
    exact ⟨holds_slice (rebuilt_ifname m), holds_slice (rebuilt_dhost m),
      holds_slice (rebuilt_shost m), rfl,
      holds_slice hdata⟩
  have hlen := eapolFrame_length m
  unfold Nas.Mem.Holds at hholds
  rwa [hlen] at hholds

theorem datalen_lt (m : Mem) : datalen m < 2 ^ 32 := by
  have hoctet : ∀ x : UInt8, x.toNat < 256 := UInt8.toNat_lt
  have h60 := hoctet (m 60)
  have h61 := hoctet (m 61)
  have h62 := hoctet (m 62)
  have h63 := hoctet (m 63)
  simp only [datalen, Nas.Mem.u16, Nat.reduceAdd]
  omega

/-! ## What is touched -/

/-- The data were received, and the length of the frame is a number of 32 bits. -/
def Fits (m : Mem) (n : Nat) : Prop := 72 + datalen m ≤ n ∧ datalen m + 30 < 2 ^ 32

instance (m : Mem) (n : Nat) : Decidable (Fits m n) := inferInstanceAs (Decidable (_ ∧ _))

/-- Octets are within the packet, and what is handed on is the frame of the event. -/
def Touch.Ok (m : Mem) (n : Nat) : Touch → Prop
  | .read off len => ifnamsiz ≤ off ∧ off + len ≤ n + ifnamsiz
  | .sendup _ off frame =>
      frame = eapolFrame m ∧ ifnamsiz ≤ off ∧ off + frame.length ≤ n + ifnamsiz
  | .canned _ _ _ => True

/-- All that was touched is as it should be. -/
def Good (m : Mem) (n : Nat) (w : Work) : Prop := ∀ t ∈ w.log, t.Ok m n

section

variable {m : Mem} {n : Nat} {w : Work}

@[simp] theorem good_touch {t : Touch} : Good m n (w.touch t) ↔ t.Ok m n ∧ Good m n w :=
  List.forall_mem_cons

@[simp] theorem good_stas {stas : StaTable} :
    Good m n { w with stas := stas } ↔ Good m n w := Iff.rfl

theorem sendup_ok (app : App) :
    (Touch.sendup app 58 ((rebuilt m).slice 58 ((datalen m + 14 + ifnamsiz) % 2 ^ 32))).Ok m n ↔
      Fits m n := by
  have hlt := datalen_lt m
  simp only [Touch.Ok, Nas.Mem.slice_length, ifnamsiz, Fits]
  constructor
  · rintro ⟨hframe, -, hbound⟩
    have hlen := congrArg List.length hframe
    rw [Nas.Mem.slice_length, eapolFrame_length] at hlen
    omega
  · rintro ⟨hbound, hwrap⟩
    rw [Nat.mod_eq_of_lt (by omega), show datalen m + 14 + 16 = datalen m + 30 by omega,
      rebuilt_frame]
    refine ⟨rfl, ?_, ?_⟩ <;> omega

/-- Where an application gets the frame, the data were received. -/
def Delivers (c : Ctx) (m : Mem) (n : Nat) (app : App) : Prop := c.appSocket app = true → Fits m n

variable {c : Ctx}

/-- `pData` and `pLen` of the dispatcher. -/
abbrev frameLen (m : Mem) : Nat := (datalen m + 14 + ifnamsiz) % 2 ^ 32

theorem appSendup_good {P : Prop} (app : App) (hp : w.packet = rebuilt m) (hP : Good m n w ↔ P) :
    wp (appSendup c app 58 (frameLen m)) (fun _ w' => Good m n w' ↔ P ∧ Delivers c m n app)
      (fun _ _ => False) w := by
  rw [wp_appSendup, hp]
  constructor
  · intro hsocket
    rw [good_touch, sendup_ok, hP]
    unfold Delivers
    tauto
  · intro hsocket
    rw [hP]
    unfold Delivers
    tauto

/-! ## The tests -/

theorem isWpsExchange_spec (s : Sta) (hp : w.packet = rebuilt m) :
    wp (isWpsExchange s 74 92)
      (fun b w' => b = wpsExchange m s ∧ w'.packet = w.packet ∧ w'.stas = w.stas ∧
        (Good m n w' ↔ Good m n w ∧ (inWps s = true → 74 ≤ n ∧ (m 89 = eapPacket → 81 ≤ n))))
      (fun _ _ => False) w := by
  have h89 : w.packet 89 = m 89 := by rw [hp, rebuilt_data m (by omega)]
  have h92 : w.packet 92 = m 92 := by rw [hp, rebuilt_data m (by omega)]
  have h96 : w.packet 96 = m 96 := by rw [hp, rebuilt_data m (by omega)]
  have hs : (s.paeState = .identity && (s.mode = .wps || s.mode = .wpsEnr)) = inWps s := rfl
  simp only [isWpsExchange, wpsExchange, wp_ite, wp_bind, wp_octet, wp_pure, Nat.reduceAdd,
    touch_packet, h89, h92, h96, hs]
  refine ⟨fun hin => ⟨fun htype => ⟨fun hexp => ?_, fun hexp => ?_⟩, fun htype => ?_⟩,
    fun hin => ?_⟩
  · simp [hin, htype, hexp, Touch.Ok, ifnamsiz]
    tauto
  · simp [hin, htype, hexp, Touch.Ok, ifnamsiz]
    grind
  · simp [hin, htype, Touch.Ok, ifnamsiz]
    tauto
  · simp [hin]

theorem isSesIdentity_spec (hp : w.packet = rebuilt m) :
    wp (isSesIdentity 74 92)
      (fun b w' => b = sesIdentity m ∧ w'.packet = w.packet ∧ w'.stas = w.stas ∧
        (Good m n w' ↔ Good m n w ∧ 74 ≤ n ∧
          (m 89 = eapPacket → 81 ≤ n ∧ (m 96 = eapExpanded → 84 ≤ n))))
      (fun _ _ => False) w := by
  have h89 : w.packet 89 = m 89 := by rw [hp, rebuilt_data m (by omega)]
  have h96 : w.packet 96 = m 96 := by rw [hp, rebuilt_data m (by omega)]
  have h97 : w.packet 97 = m 97 := by rw [hp, rebuilt_data m (by omega)]
  have h98 : w.packet 98 = m 98 := by rw [hp, rebuilt_data m (by omega)]
  have h99 : w.packet 99 = m 99 := by rw [hp, rebuilt_data m (by omega)]
  simp only [isSesIdentity, sesIdentity, wp_ite, wp_bind, wp_octet, wp_pure, Nat.reduceAdd,
    touch_packet, h89, h96, h97, h98, h99]
  refine ⟨fun htype => ⟨fun hexp => ⟨fun h2 => ⟨fun h1 => ?_, fun h1 => ?_⟩, fun h2 => ?_⟩,
    fun hexp => ?_⟩,
    fun htype => ?_⟩
  · simp [htype, hexp, h2, h1, Touch.Ok, ifnamsiz]
    grind
  · simp [htype, hexp, h2, h1, Touch.Ok, ifnamsiz]
    grind
  · simp [htype, hexp, h2, Touch.Ok, ifnamsiz]
    grind
  · simp [htype, hexp, Touch.Ok, ifnamsiz]
    grind
  · simp [htype, Touch.Ok, ifnamsiz]
    tauto

theorem isWscIdentity_spec (hp : w.packet = rebuilt m) :
    wp (isWscIdentity 97)
      (fun b w' => b = wscIdentity m ∧ w'.packet = w.packet ∧ w'.stas = w.stas ∧
        (Good m n w' ↔ Good m n w ∧
          (if m.slice 97 29 == enrolleeIdentity then 110 else 111) ≤ n))
      (fun _ _ => False) w := by
  have h29 : w.packet.slice 97 29 = m.slice 97 29 :=
    Nas.Mem.slice_congr fun i _ => by rw [hp, rebuilt_data m (by omega)]
  have h30 : w.packet.slice 97 30 = m.slice 97 30 :=
    Nas.Mem.slice_congr fun i _ => by rw [hp, rebuilt_data m (by omega)]
  simp only [isWscIdentity, wscIdentity, wp_ite, wp_bind, wp_octets, wp_pure,
    touch_packet, h29, h30]
  refine ⟨fun henr => ?_, fun henr => ?_⟩
  · simp [henr, Touch.Ok, ifnamsiz]
    tauto
  · simp [henr, Touch.Ok, ifnamsiz]
    grind

/-! ## The cases -/

theorem staRemove_good (hinv : StaTableInv w.stas) (i : Slot) :
    wp (staRemove i) (fun _ w' => w'.packet = w.packet ∧ (Good m n w' ↔ Good m n w))
      (fun _ _ => False) w := by
  obtain ⟨t', hremove, -, -⟩ := hinv.staRemove i
  simp only [staRemove, wp_bind, wp_get, hremove]
  exact ⟨rfl, good_stas⟩

theorem wpsExchangeCase_spec (hinv : StaTableInv w.stas) (hp : w.packet = rebuilt m)
    (i : Slot) (s : Sta) (hs : wpsExchange m s = true) :
    wp (wpsExchangeCase c i s.mode 58 (frameLen m) 92)
      (fun _ w' => Good m n w' ↔
        (Good m n w ∧ 77 ≤ n) ∧ ∀ app, recipient m s = some app → Delivers c m n app)
      (fun _ _ => False) w := by
  have h92 : w.packet 92 = m 92 := by rw [hp, rebuilt_data m (by omega)]
  have hread : Good m n (w.touch (.read 92 1)) ↔ Good m n w ∧ 77 ≤ n := by
    simp [Touch.Ok, ifnamsiz]
    tauto
  have hsend : s.mode = .wpsEnr ∧ (m 92 = eapRequest ∨ m 92 = eapFailure) ∨
      s.mode = .wps ∧ m 92 = eapResponse → recipient m s = some .wps := by
    intro h
    simp only [recipient, hs, if_true]
    rw [if_pos (by simpa using h)]
  have hdrop : ¬(s.mode = .wpsEnr ∧ (m 92 = eapRequest ∨ m 92 = eapFailure) ∨
      s.mode = .wps ∧ m 92 = eapResponse) → recipient m s = none := by
    intro h
    simp only [recipient, hs, if_true]
    rw [if_neg (by simpa using h)]
  simp only [wpsExchangeCase, wpsAppMonitorSendup, wp_bind, wp_octet, wp_ite, wp_pure, h92,
    Bool.or_eq_true, decide_eq_true_eq]
  refine ⟨fun hcode => ⟨fun hmode => ⟨fun hfail => ?_, fun hfail => ?_⟩, fun hmode => ?_⟩,
    fun hcode => ⟨fun hresp => ⟨fun hmode => ?_, fun hmode => ?_⟩, fun hresp => ?_⟩⟩
  · simp only [hsend (.inl ⟨hmode, hcode⟩), Option.some.injEq, forall_eq']
    have hremove := staRemove_good (m := m) (n := n) (w := w.touch (.read 92 1)) hinv i
    refine wp_mono hremove (fun _ w' hw => ?_) (fun _ _ h => h)
    exact appSendup_good .wps (hw.1.trans hp) (hw.2.trans hread)
  · simp only [hsend (.inl ⟨hmode, hcode⟩), Option.some.injEq, forall_eq']
    exact appSendup_good .wps hp hread
  · have hnone := hdrop (by
      rintro (⟨henr, -⟩ | ⟨-, hresp⟩)
      · exact hmode henr
      · rw [hresp] at hcode
        revert hcode
        decide)
    simp [hnone, hread]
  · simp only [hsend (.inr ⟨hmode, hresp⟩), Option.some.injEq, forall_eq']
    exact appSendup_good .wps hp hread
  · have hnone := hdrop (by
      rintro (⟨-, hreq⟩ | ⟨hwps, -⟩)
      · exact hcode hreq
      · exact hmode hwps)
    simp [hnone, hread]
  · have hnone := hdrop (by
      rintro (⟨-, hreq⟩ | ⟨-, hresp'⟩)
      · exact hcode hreq
      · exact hresp hresp')
    simp [hnone, hread]

/-- The octets that tell an identity of Wi-Fi simple configuration. -/
abbrev identityEnd (m : Mem) : Nat := if m.slice 97 29 == enrolleeIdentity then 110 else 111

theorem eapPacketCase_spec (hp : w.packet = rebuilt m) (i : Slot) (s : Sta)
    (hwps : wpsExchange m s = false) (hses : sesIdentity m = false) (htype : m 89 = eapPacket) :
    wp (eapPacketCase c i s.mode 58 (frameLen m) 74 92)
      (fun _ w' => Good m n w' ↔
        (Good m n w ∧ 76 ≤ n ∧
          (5 ≤ m.u16 90 → 81 ≤ n ∧ (m 96 = eapIdentity → identityEnd m ≤ n))) ∧
        ∀ app, recipient m s = some app → Delivers c m n app)
      (fun _ _ => False) w := by
  have h90 : w.packet.u16 90 = m.u16 90 := by
    simp only [Nas.Mem.u16, Nat.reduceAdd, hp, rebuilt_data m (i := 90) (by omega),
      rebuilt_data m (i := 91) (by omega)]
  have h96 : w.packet 96 = m 96 := by rw [hp, rebuilt_data m (by omega)]
  have hto : recipient m s =
      if m.u16 90 < 5 then none
      else if m 96 = eapIdentity && (wscIdentity m || s.mode = .wpsEnr) then some .wps
      else some .nas := by
    simp [recipient, hwps, hses, htype]
  simp only [eapPacketCase, wpsAppMonitorSendup, nasAppSendup, wp_bind, wp_u16, wp_octet,
    wp_octets, wp_ite, wp_pure, wp_modSta, Nat.reduceAdd, touch_packet, h90, h96]
  refine ⟨fun hlen => ⟨fun hid => ?_, fun hid => ?_⟩, fun hlen => ?_⟩
  · -- an identity: its octets are compared with those of the list
    refine wp_mono (isWscIdentity_spec (m := m) (n := n) (by exact hp)) (fun b w' hw => ?_)
      (fun _ _ h => h)
    obtain ⟨rfl, hp', -, hgood⟩ := hw
    have hP : Good m n w' ↔ Good m n w ∧ 76 ≤ n ∧
        (5 ≤ m.u16 90 → 81 ≤ n ∧ (m 96 = eapIdentity → identityEnd m ≤ n)) := by
      rw [hgood]
      simp only [Good, touch_log, List.forall_mem_cons, Touch.Ok, ifnamsiz, hlen, hid, true_implies]
      clear hgood hp' hto
      constructor
      · rintro ⟨⟨-, -, h96, h90, hlog⟩, hend⟩
        exact ⟨hlog, by omega, by omega, hend⟩
      · rintro ⟨hlog, h76, h81, hend⟩
        exact ⟨⟨by omega, by omega, by omega, by omega, hlog⟩, hend⟩
    refine ⟨fun hyes => ?_, fun hno => ⟨fun henr => ?_, fun henr => ?_⟩⟩
    · have hwps : recipient m s = some .wps := by
        rw [hto, if_neg (by omega), if_pos (by simp [hid, hyes])]
      simp only [hwps, Option.some.injEq, forall_eq', good_stas]
      exact appSendup_good .wps (hp'.trans hp) hP
    · have hwps : recipient m s = some .wps := by
        rw [hto, if_neg (by omega), if_pos (by simp [hid, henr])]
      simp only [hwps, Option.some.injEq, forall_eq', good_stas]
      exact appSendup_good .wps (hp'.trans hp) hP
    · have hnas : recipient m s = some .nas := by
        rw [hto, if_neg (by omega), if_neg (by simp [hno, henr])]
      simp only [hnas, Option.some.injEq, forall_eq', good_stas]
      exact appSendup_good .nas (hp'.trans hp) hP
  · have hnas : recipient m s = some .nas := by
      rw [hto, if_neg (by omega), if_neg (by simp [hid])]
    simp only [hnas, Option.some.injEq, forall_eq', good_stas]
    refine appSendup_good .nas (by exact hp) ?_
    simp [hlen, hid, Touch.Ok, ifnamsiz]
    tauto
  · have hnone : recipient m s = none := by
      rw [hto, if_pos (by omega)]
    simp [hnone, hlen, Touch.Ok, ifnamsiz]
    tauto

theorem eapolStartCase_spec (frm : From) (i : Slot) (mode : StaMode) :
    wp (eapolStartCase c frm i mode 58 74) (fun _ w' => Good m n w' ↔ Good m n w ∧ 64 ≤ n)
      (fun _ _ => False) w := by
  simp only [eapolStartCase, wp_bind, wp_octets, wp_modSta, wp_ite, wp_touch, wp_pure]
  refine ⟨fun _ => ?_, fun _ => ?_⟩
  · simp only [Good, Work.touch, List.forall_mem_cons, Touch.Ok, ifnamsiz, true_and]
    constructor
    · rintro ⟨-, hdhost, hlog⟩
      exact ⟨hlog, by omega⟩
    · rintro ⟨hlog, h64⟩
      exact ⟨by omega, by omega, hlog⟩
  · simp only [Good, Work.touch, List.forall_mem_cons, Touch.Ok, ifnamsiz]
    constructor
    · rintro ⟨-, hdhost, hlog⟩
      exact ⟨hlog, by omega⟩
    · rintro ⟨hlog, h64⟩
      exact ⟨by omega, by omega, hlog⟩

theorem eapolLogoffCase_spec (hp : w.packet = rebuilt m) (s : Sta) (hwps : wpsExchange m s = false)
    (hses : sesIdentity m = false) (htype : m 89 = eapolLogoff) :
    wp (eapolLogoffCase c s.mode 58 (frameLen m))
      (fun _ w' => Good m n w' ↔ Good m n w ∧ ∀ app, recipient m s = some app → Delivers c m n app)
      (fun _ _ => False) w := by
  have hto : recipient m s =
      if s.mode = .wps || s.mode = .wpsEnr then some .wps
      else if s.mode = .nas || s.mode = .nasPsk then some .nas else none := by
    simp [recipient, hwps, hses, htype, eapolLogoff, eapPacket, eapolStart]
  simp only [eapolLogoffCase, wpsAppMonitorSendup, nasAppSendup, wp_ite, wp_pure, hto]
  refine ⟨fun hmode => ?_, fun hmode => ⟨fun hmode' => ?_, fun hmode' => ?_⟩⟩
  · simp only [if_pos hmode, Option.some.injEq, forall_eq']
    exact appSendup_good .wps hp Iff.rfl
  · simp only [if_neg hmode, if_pos hmode', Option.some.injEq, forall_eq']
    exact appSendup_good .nas hp Iff.rfl
  · simp only [if_neg hmode, if_neg hmode']
    simp

/-! ## The dispatcher -/

/-- The station of an event, and the table with it. -/
def stationOf (c : Ctx) (stas : StaTable) (m : Mem) : Option (StaTable × Option Slot) :=
  stas.staLookup c.psta (m.slice 64 6) (some (m.slice 16 6)) (m.slice 70 16) .searchEnter c.now

/-- What the relay relies on: the octets that are looked at were received, and so were the data if
an application gets the frame. -/
def Covered (c : Ctx) (m : Mem) (n : Nat) (s : Sta) : Prop :=
  examined m s ≤ n ∧ ∀ app, recipient m s = some app → Delivers c m n app

theorem examined_ge (m : Mem) (s : Sta) : 73 ≤ examined m s := by
  unfold examined
  split_ifs <;> omega

theorem examined_packet {s : Sta} {P : Prop} (hwps : wpsExchange m s = false)
    (htype : m 89 = eapPacket) :
    ((P ∧ 74 ≤ n ∧ 81 ≤ n ∧ (m 96 = eapExpanded → 84 ≤ n)) ∧ 76 ≤ n ∧
      (5 ≤ m.u16 90 → 81 ≤ n ∧ (m 96 = eapIdentity → identityEnd m ≤ n))) ↔
        P ∧ examined m s ≤ n := by
  unfold examined
  rw [if_neg (not_not.mpr htype), hwps, if_neg Bool.false_ne_true]
  by_cases hexp : m 96 = eapExpanded
  · have hid : m 96 ≠ eapIdentity := by
      rw [hexp]
      decide
    rw [if_pos hexp]
    simp only [hexp, true_implies]
    constructor
    · rintro ⟨⟨hP, -, -, h84⟩, -⟩
      exact ⟨hP, h84⟩
    · rintro ⟨hP, h84⟩
      exact ⟨⟨hP, by omega, by omega, h84⟩, by omega,
        fun _ => ⟨by omega, fun h => absurd (hexp.trans h) hid⟩⟩
  · rw [if_neg hexp]
    by_cases hid : m 96 = eapIdentity ∧ 5 ≤ m.u16 90
    · rw [if_pos (by simpa using hid)]
      simp only [hid, true_implies]
      constructor
      · rintro ⟨⟨hP, -⟩, -, -, hend⟩
        exact ⟨hP, hend⟩
      · rintro ⟨hP, hend⟩
        have hge : 110 ≤ identityEnd m := by
          unfold identityEnd
          split <;> omega
        replace hge := hge.trans hend
        exact ⟨⟨hP, by omega, by omega, fun h => absurd h (by decide)⟩, by omega, by omega,
          hend⟩
    · rw [if_neg (by simpa using hid)]
      constructor
      · rintro ⟨⟨hP, -, h81, -⟩, -⟩
        exact ⟨hP, h81⟩
      · rintro ⟨hP, h81⟩
        exact ⟨⟨hP, by omega, h81, fun h => absurd h hexp⟩, by omega,
          fun hlen => ⟨h81, fun h => absurd ⟨h, hlen⟩ hid⟩⟩

theorem dispatchSta_spec (hinv : StaTableInv w.stas) (hp : w.packet = rebuilt m) (frm : From)
    (i : Slot) (s : Sta) :
    wp (dispatchSta c frm i s 58 (frameLen m) 74 92)
      (fun _ w' => Good m n w' ↔ Good m n w ∧ Covered c m n s) (fun _ _ => False) w := by
  simp only [dispatchSta, Nat.reduceAdd]
  rw [wp_bind]
  refine wp_mono (isWpsExchange_spec (n := n) s hp) (fun b w₁ h₁ => ?_) (fun _ _ h => h)
  obtain ⟨rfl, hp₁, hstas₁, hgood₁⟩ := h₁
  rw [wp_ite]
  refine ⟨fun hwps => ?_, fun hwps => ?_⟩
  · rw [← hstas₁] at hinv
    refine wp_mono (wpsExchangeCase_spec (n := n) hinv (hp₁.trans hp) i s hwps) (fun _ w₂ h₂ => ?_)
      (fun _ _ h => h)
    have hin : inWps s = true ∧ m 89 = eapPacket := by
      simp only [wpsExchange, Bool.and_eq_true, decide_eq_true_eq] at hwps
      exact hwps.1
    have hend : examined m s = 81 := by simp [examined, hin.2, hwps]
    rw [h₂, hgood₁, Covered, hend]
    simp only [hin, true_implies]
    constructor
    · rintro ⟨⟨⟨hw, -, h81⟩, -⟩, hto⟩
      exact ⟨hw, h81, hto⟩
    · rintro ⟨hw, h81, hto⟩
      exact ⟨⟨⟨hw, by omega, h81⟩, by omega⟩, hto⟩
  · replace hwps : wpsExchange m s = false := eq_false_of_ne_true hwps
    rw [wp_bind]
    refine wp_mono (isSesIdentity_spec (n := n) (hp₁.trans hp)) (fun b w₂ h₂ => ?_) (fun _ _ h => h)
    obtain ⟨rfl, hp₂, -, hgood₂⟩ := h₂
    replace hp₂ := hp₂.trans (hp₁.trans hp)
    rw [hgood₁] at hgood₂
    have h89 : w₂.packet 89 = m 89 := by rw [hp₂, rebuilt_data m (by omega)]
    rw [wp_ite]
    refine ⟨fun hses => ?_, fun hses => ?_⟩
    · have hin : m 89 = eapPacket ∧ m 96 = eapExpanded := by
        simp only [sesIdentity, Bool.and_eq_true, decide_eq_true_eq] at hses
        exact hses.1.1.1
      have hend : examined m s = 84 := by simp [examined, hin, hwps]
      have hto : recipient m s = some .ses := by simp [recipient, hwps, hses]
      simp only [sesAppSendup, wp_bind, wp_modSta, good_stas]
      refine wp_mono (appSendup_good (n := n) .ses hp₂ hgood₂) (fun _ w₃ h₃ => ?_) (fun _ _ h => h)
      rw [h₃, Covered, hend, hto]
      simp only [hin, true_implies, Option.some.injEq, forall_eq']
      constructor
      · rintro ⟨⟨⟨hw, -⟩, -, -, h84⟩, hsend⟩
        exact ⟨hw, h84, hsend⟩
      · rintro ⟨hw, h84, hsend⟩
        exact ⟨⟨⟨hw, fun _ => ⟨by omega, by omega⟩⟩, by omega, by omega, h84⟩, hsend⟩
    · replace hses : sesIdentity m = false := eq_false_of_ne_true hses
      have hread : Good m n (w₂.touch (.read 89 1)) ↔ Good m n w ∧ 74 ≤ n ∧
          (m 89 = eapPacket → 81 ≤ n ∧ (m 96 = eapExpanded → 84 ≤ n)) := by
        rw [good_touch, hgood₂]
        simp only [Touch.Ok, ifnamsiz]
        constructor
        · rintro ⟨-, ⟨hw, -⟩, h74, hpacket⟩
          exact ⟨hw, h74, hpacket⟩
        · rintro ⟨hw, h74, hpacket⟩
          exact ⟨by omega, ⟨hw, fun _ => ⟨h74, fun h => (hpacket h).1⟩⟩, h74, hpacket⟩
      simp only [wp_bind, wp_octet, wp_ite, h89]
      refine ⟨fun htype => ?_, fun htype => ⟨fun hstart => ?_, fun hstart =>
        ⟨fun hlogoff => ?_, fun hlogoff => ?_⟩⟩⟩
      · refine wp_mono (eapPacketCase_spec (n := n) (by exact hp₂) i s hwps hses htype)
          (fun _ w₃ h₃ => ?_)
          (fun _ _ h => h)
        rw [h₃, hread, Covered]
        simp only [htype, true_implies]
        exact (and_congr_left' (examined_packet hwps htype)).trans and_assoc
      · have hend : examined m s = 74 := by simp [examined, htype]
        have hto : recipient m s = none := by
          simp [recipient, hwps, hses, hstart, eapolStart, eapPacket]
        refine wp_mono (eapolStartCase_spec (m := m) (n := n) frm i s.mode) (fun _ w₃ h₃ => ?_)
          (fun _ _ h => h)
        rw [h₃, hread, Covered, hend, hto]
        simp [htype]
        omega
      · have hend : examined m s = 74 := by simp [examined, htype]
        refine wp_mono (eapolLogoffCase_spec (n := n) (by exact hp₂) s hwps hses hlogoff)
          (fun _ w₃ h₃ => ?_)
          (fun _ _ h => h)
        rw [h₃, hread, Covered, hend]
        simp [htype, and_assoc]
      · have hend : examined m s = 74 := by simp [examined, htype]
        have hto : recipient m s = some .nas := by
          simp [recipient, hwps, hses, htype, hstart, hlogoff]
        refine wp_mono (appSendup_good (n := n) .nas (by exact hp₂) hread) (fun _ w₃ h₃ => ?_)
          (fun _ _ h => h)
        rw [h₃, Covered, hend, hto]
        simp [htype, and_assoc]

/-- **The dispatcher.** -/
theorem eapolDispatch_spec (hinv : StaTableInv w.stas) (hp : w.packet = rebuilt m) (frm : From) :
    wp (eapdEapolDispatch c frm 58 (frameLen m))
      (fun _ w' => Good m n w' ↔ Good m n w ∧ 70 ≤ n ∧
        ∀ t i, stationOf c w.stas m = some (t, some i) → Covered c m n (t.sta i))
      (fun _ _ => False) w := by
  obtain ⟨t, r, hlookup, hinv', -⟩ := hinv.staLookup c.psta (m.slice 64 6) (m.slice 16 6)
    (m.slice 70 16) c.now
  have hstation : stationOf c w.stas m = some (t, r) := hlookup
  have hread : Good m n (((w.touch (.read 80 6)).touch (.read 74 6)).touch (.read 58 16)) ↔
      Good m n w ∧ 70 ≤ n := by
    simp only [good_touch, Touch.Ok, ifnamsiz]
    constructor
    · rintro ⟨-, -, hshost, hw⟩
      exact ⟨hw, by omega⟩
    · rintro ⟨hw, h70⟩
      exact ⟨by omega, by omega, by omega, hw⟩
  simp only [eapdEapolDispatch, staLookup, ifnamsiz, Nat.reduceAdd, wp_bind, wp_octets, wp_get,
    touch_packet, touch_stas, hp, rebuilt_shost, rebuilt_dhost, rebuilt_ifname, hlookup,
    wp_set, wp_pure]
  cases r with
  | none =>
      rw [wp_pure, hstation]
      exact hread.trans (and_congr_right' (by simp))
  | some i =>
      rw [wp_bind, wp_octet, wp_bind, wp_getSta]
      refine wp_mono (dispatchSta_spec (n := n) hinv' rfl frm i _) (fun _ w' hw => ?_)
        (fun _ _ h => h)
      have hversion : Good m n
          (Work.touch ⟨rebuilt m, t,
            (((w.touch (.read 80 6)).touch (.read 74 6)).touch (.read 58 16)).log⟩
            (.read 88 1)) ↔ (Good m n w ∧ 70 ≤ n) ∧ 73 ≤ n := by
        rw [good_touch, ← hread]
        simp only [Touch.Ok, ifnamsiz]
        constructor
        · rintro ⟨h88, hlog⟩
          exact ⟨hlog, by omega⟩
        · rintro ⟨hlog, h73⟩
          exact ⟨by omega, hlog⟩
      rw [hw, hversion, hstation]
      simp only [Option.some.injEq, Prod.mk.injEq]
      have hfar : ∀ s, Covered c m n s → 73 ≤ n := fun s h => (examined_ge m s).trans h.1
      constructor
      · rintro ⟨⟨⟨hlog, h70⟩, -⟩, hcovered⟩
        refine ⟨hlog, h70, ?_⟩
        rintro t' j ⟨rfl, rfl⟩
        exact hcovered
      · rintro ⟨hlog, h70, hcovered⟩
        have hi := hcovered t i ⟨rfl, rfl⟩
        exact ⟨⟨⟨hlog, h70⟩, hfar _ hi⟩, hi⟩

/-- **The relay of EAPOL frames.** What is touched and sent for an EAPOL event is as it should be
exactly if the octets that are looked at were received, and so were the data of a frame that an
application gets. -/
theorem eapol_relay_iff (c : Ctx) (frm : From) {stas : StaTable} (hinv : StaTableInv stas) {m : Mem}
    (hevent : IsEapolEvent m) (n : Nat) :
    wp (eapdBrcmRecvHandler c frm ifnamsiz n)
      (fun _ w' => (∀ t ∈ w'.log, t.Ok m n) ↔
        70 ≤ n ∧ ∀ stas' i, stationOf c stas m = some (stas', some i) → Covered c m n (stas'.sta i))
      (fun _ _ => False) ⟨m, stas, []⟩ := by
  have hsubtype : m.u16 (ifnamsiz + 22) = bcmilcpBcmSubtypeEvent := hevent.1
  have htype : m.u16 (ifnamsiz + 28) * 65536 + m.u16 (ifnamsiz + 28 + 2) = wlcEEapolMsg := hevent.2
  simp only [eapdBrcmRecvHandler, wp_bind, wp_u16, wp_u32, wp_ite, touch_packet, hsubtype, htype]
  refine ⟨fun _ => ⟨fun _ => ?_, fun hno => absurd trivial hno⟩, fun hno => absurd trivial hno⟩
  refine wp_mono (rebuildEapol_spec _) (fun _ w₁ h₁ => ?_) (fun _ _ h => h)
  obtain ⟨hp, hstas, hlog⟩ := h₁
  replace hinv : StaTableInv w₁.stas := by
    rw [hstas]
    exact hinv
  refine wp_mono (eapolDispatch_spec (n := n) hinv hp frm) (fun _ w₂ h₂ => ?_) (fun _ _ h => h)
  rw [hstas] at h₂
  refine h₂.trans ?_
  have hheader : 70 ≤ n → Good m n w₁ := by
    intro h70 e he
    rw [hlog] at he
    simp only [touch_log, List.mem_cons, List.not_mem_nil, or_false] at he
    rcases he with rfl | rfl | rfl | rfl | rfl | rfl <;> simp only [Touch.Ok, ifnamsiz] <;> omega
  exact ⟨fun h => h.2, fun h => ⟨hheader h.1, h⟩⟩

end

/-! ## A short packet -/

instance (m : Mem) (n : Nat) (t : Touch) : Decidable (t.Ok m n) := by
  apply @Touch.casesOn (fun t => Decidable (t.Ok m n)) t
  all_goals
    intros
    dsimp only [Touch.Ok]
    infer_instance

/-- `eapd` with all its sockets open, on one interface. -/
def oneInterface : Ctx where
  now := 1
  appSocket := fun _ => true
  cbs := fun _ => [[98, 114, 48]]
  bitvec := fun _ _ => true
  ifnames := fun _ => [[119, 108, 48]]
  psta := fun _ => false
  osifnameToNvifname := fun _ => some [119, 108, 48]

def bridgeSocket : From := ⟨[98, 114, 48], eapdCapNas⟩

/-- The buffer with an event that says it has `len` octets of data, an EAPOL-Key frame of
95 octets. -/
def keyEvent (len : UInt8) : Mem :=
  Nas.Mem.ofBytes (List.replicate 16 0 ++ [2, 0, 0, 0, 0, 1, 2, 0, 0, 0, 0, 9, 0x88, 0x6c] ++
    [0x80, 1, 0, 0, 0, 0, 0x10, 0x18, 0, 1] ++
    [0, 2, 0, 0, 0, 0, 0, 25, 0, 0, 0, 0, 0, 0, 0, 0, 0, 0, 0, 0, 0, 0, 0, len, 2, 0, 0, 0, 0, 7] ++
    [101, 116, 104, 49, 0, 0, 0, 0, 0, 0, 0, 0, 0, 0, 0, 0, 0, 0] ++ [2, 3, 0, 95] ++
      List.replicate 95 7)

theorem eapol_relay_iff_key :
    wp (eapdBrcmRecvHandler oneInterface bridgeSocket ifnamsiz 171)
      (fun _ w' => (∀ t ∈ w'.log, t.Ok (keyEvent 99) 171) ↔
        70 ≤ 171 ∧ ∀ stas' i, stationOf oneInterface StaTable.zero (keyEvent 99) =
          some (stas', some i) →
          Covered oneInterface (keyEvent 99) 171 (stas'.sta i))
      (fun _ _ => False) ⟨keyEvent 99, StaTable.zero, []⟩ :=
  eapol_relay_iff oneInterface bridgeSocket StaTableInv.zero (by decide) 171

set_option maxRecDepth 100000 in
/-- A packet of 171 octets that says it has 200 octets of data: `eapd` forwards 29 octets that were
not received. -/
theorem short_event_overread :
    ¬ ∀ t ∈ (finalState (eapdBrcmRecvHandler oneInterface bridgeSocket ifnamsiz 171)
      ⟨keyEvent 200, StaTable.zero, []⟩).log, t.Ok (keyEvent 200) 171 := by
  decide +kernel

end BroadcomWl.Eapd
