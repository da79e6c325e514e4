import BroadcomWl.Nas.Replay

/-!
# The group key

A station gets the group key in message 3, under WPA2, or in a group key message. When the key is
changed, `wpa_new_gtk_callback` sends the new one to the stations in `WPA_SETKEYSDONE` and to no
others: a station that has the old one and still owes a reply goes on to `WPA_SETKEYSDONE` with it.

**`group_key_agreed`**: in the runs in which the group key is neither changed nor forgotten while a
station is midway, every station that holds keys was last sent the key that is plumbed for sending.
`rekey_midway` is the run in which a station answers message 3 after a rekey.
-/

namespace BroadcomWl.Nas

open BroadcomWl.Lib BroadcomWl.Crypto

variable {c : Ctx} {ev : Event} {w0 : World}

/-! ## What was sent and what is plumbed -/

/-- The group key that the station in a slot was last sent, since the slot was initialised. -/
def lastGtk (i : Slot) : List Out → Option (Bytes × Nat)
  | [] => none
  | .send j _ _ gtk :: l => if j = i then gtk.or (lastGtk i l) else lastGtk i l
  | .init j _ :: l => if j = i then none else lastGtk i l
  | _ :: l => lastGtk i l

/-- The primary transmit key of the driver, a group key and its index: `base` is the one it has
before the instance starts. A key that is plumbed for receiving, or cleared, at the index of the
primary key takes its place. -/
def primaryKey (base : Option (Bytes × Nat)) : List Out → Option (Bytes × Nat)
  | [] => base
  | .setKey a ret :: l =>
    if a.ea.isSome || decide (ret < 0) then primaryKey base l
    else if a.tx then some (a.key, a.index)
    else (primaryKey base l).bind fun p =>
      if p.2 ≠ a.index then some p else if a.key = [] then none else some (a.key, a.index)
  | _ :: l => primaryKey base l

/-- Every station that holds keys was last sent the primary key. -/
def GroupAgreed (c : Ctx) (w : World) : Prop :=
  ∀ i, (w.sta i).used = true → (w.sta i).state = .setkeysdone →
    ∃ gtk, lastGtk i w.log = some gtk ∧ primaryKey c.cfg.staticKey w.log = some gtk

/-! ## The condition -/

/-- The station has been sent the group key, and owes the reply that leads to
`WPA_SETKEYSDONE`. -/
def Core.Midway (k : Core) : Prop :=
  k.used = true ∧ (k.state = .rekeynegotiating
    ∨ ((k.state = .ptkinitdone ∨ k.hndlr = true) ∧ checkWpa2 k.mode = true))

instance (k : Core) : Decidable k.Midway := by
  unfold Core.Midway
  infer_instance

/-- A change of the group key is of no consequence, or finds no station midway. -/
def RekeyCalm (w : World) : Prop :=
  (∀ i, (w.sta i).used = true → (w.sta i).state ≠ .setkeysdone) ∨ ∀ i, ¬(w.sta i).core.Midway

instance (w : World) : Decidable (RekeyCalm w) := by
  unfold RekeyCalm
  infer_instance

/-- The event neither changes nor forgets the group key while a station is midway, and lets no
station finish that has not been sent it in message 3. -/
def GroupCalm (c : Ctx) (w : World) : Event → Prop
  | .gtkTimer | .forceRekey => RekeyCalm w
  | .eapol f => ∀ i, delivered w f i = true →
      (keysRequest c (w.sta i) f = true → has f.keyInfo wpaKeyError = false →
        has f.keyInfo wpaKeyPairwise = false → RekeyCalm w)
      ∧ (c.cfg.wds = true → (w.sta i).state = .ptkinitdone → checkWpa2 (w.sta i).mode = true)
  | .retxTimer i => c.cfg.wds = true → exhausted c w i = true → checkWpa2 (w.sta i).mode = true
  | .preauth f => c.cfg.disablePreauth = true ∨ ∀ i, w.find f.shost = some i →
      (w.sta i).pae.state = .held ∨ checkWpa2 (w.sta i).mode = true
        ∨ ((w.sta i).state ≠ .ptkinitdone ∧ (w.sta i).retxExceedHndlr = false)
  | .link m => c.cfg.wds = true ∨ wsecWepEnabled c.cfg.wsec = true ∨ has m.flags eventMsgLink = true
      ∨ ∀ i, ¬(w.sta i).core.Midway ∧ ¬((w.sta i).used = true ∧ (w.sta i).state = .setkeysdone)
  | _ => True

instance (c : Ctx) (w : World) (ev : Event) : Decidable (GroupCalm c w ev) := by
  apply @Event.casesOn (fun ev => Decidable (GroupCalm c w ev)) ev
  all_goals
    intros
    dsimp only [GroupCalm]
    infer_instance

theorem GroupCalm.rekeys (h : GroupCalm c w0 ev) (hev : rekeys c ev w0) : RekeyCalm w0 := by
  cases ev with
  | gtkTimer => exact h
  | forceRekey => exact h
  | eapol f =>
      obtain ⟨i, hdel, hreq, herr, hpair⟩ := hev
      exact (h i hdel).1 hreq herr hpair
  | _ => exact hev.elim

theorem GroupCalm.finishes (h : GroupCalm c w0 ev) {i : Slot} (hwds : c.cfg.wds = true)
    (hwhy : ((w0.sta i).state = .ptkinitdone ∧ Verified c ev w0 i)
      ∨ (ev = .retxTimer i ∧ exhausted c w0 i = true)) : checkWpa2 (w0.sta i).mode = true := by
  rcases hwhy with ⟨hstate, f, rfl, hdel, -, -⟩ | ⟨rfl, hexh⟩
  · exact (h i hdel).2 hwds hstate
  · exact h hwds hexh

/-! ## Keys in the log -/

theorem lastGtk_cons {i : Slot} {o : Out} (h : o.slot ≠ some i) (l : List Out) :
    lastGtk i (o :: l) = lastGtk i l := by
  cases o with
  | send j ea k gtk =>
      have hj : j ≠ i := fun hj => h (by rw [hj]; rfl)
      simp only [lastGtk, if_neg hj]
  | init j ea =>
      have hj : j ≠ i := fun hj => h (by rw [hj]; rfl)
      simp only [lastGtk, if_neg hj]
  | _ => rfl

theorem lastGtk_append {i : Slot} {outs : List Out} (h : ∀ o ∈ outs, o.slot ≠ some i)
    (l : List Out) : lastGtk i (outs ++ l) = lastGtk i l := by
  induction outs with
  | nil => rfl
  | cons o outs ih =>
      rw [List.cons_append, lastGtk_cons (h o List.mem_cons_self)]
      exact ih fun o' ho' => h o' (List.mem_cons_of_mem _ ho')

theorem lastGtk_visible (i : Slot) (l : List Out) :
    lastGtk i (l.filter Out.visible) = lastGtk i l := by
  induction l with
  | nil => rfl
  | cons o l ih =>
      cases h : o.visible with
      | true =>
          rw [List.filter_cons_of_pos h]
          cases o with
          | send j ea k gtk => simp only [lastGtk, ih]
          | init j ea => simp only [lastGtk, ih]
          | _ => exact ih
      | false =>
          rw [List.filter_cons_of_neg (by simp [h]), lastGtk_cons, ih]
          cases o <;> simp_all [Out.slot, Out.visible]

/-- The effects other than group keys. -/
def Out.isGroupKey : Out → Bool
  | .setKey a _ => a.ea.isNone
  | _ => false

theorem primaryKey_cons {base : Option (Bytes × Nat)} {o : Out} (h : o.isGroupKey = false)
    (l : List Out) : primaryKey base (o :: l) = primaryKey base l := by
  cases o with
  | setKey a ret =>
      have hsome : a.ea.isSome = true := by
        rw [Out.isGroupKey, Option.isNone_eq_false_iff] at h
        exact h
      simp only [primaryKey, hsome, Bool.true_or, if_true]
  | _ => rfl

theorem primaryKey_append {base : Option (Bytes × Nat)} {outs : List Out}
    (h : ∀ o ∈ outs, o.isGroupKey = false) (l : List Out) :
    primaryKey base (outs ++ l) = primaryKey base l := by
  induction outs with
  | nil => rfl
  | cons o outs ih =>
      rw [List.cons_append, primaryKey_cons (h o List.mem_cons_self)]
      exact ih fun o' ho' => h o' (List.mem_cons_of_mem _ ho')

theorem primaryKey_visible (base : Option (Bytes × Nat)) (l : List Out) :
    primaryKey base (l.filter Out.visible) = primaryKey base l := by
  induction l with
  | nil => rfl
  | cons o l ih =>
      cases h : o.visible with
      | true =>
          rw [List.filter_cons_of_pos h]
          cases o with
          | setKey a ret => simp only [primaryKey, ih]
          | _ => exact ih
      | false =>
          rw [List.filter_cons_of_neg (by simp [h]), ih, primaryKey_cons]
          cases o <;> simp_all [Out.isGroupKey, Out.visible]

theorem primaryKey_plumb (base gtk) {ret : Int} (hret : 0 ≤ ret) (rsc : Bytes) (l : List Out) :
    primaryKey base (.setKey (groupArgs gtk true rsc) ret :: l) = some gtk := by
  have hneg : ¬ret < 0 := not_lt.mpr hret
  simp [primaryKey, groupArgs, hneg]

/-! ## The invariant -/

/-- What holds of a station with respect to the group key of the instance. -/
structure StationKeyed (a : Abs) (k : Core) (last : Option (Bytes × Nat)) : Prop where
  plumbed : (k.used = true ∧ k.state = .setkeysdone) ∨ k.Midway → a.plumbed = true
  done : a.rekeying = false → k.used = true → k.state = .setkeysdone → last = some a.gtk
  midway : k.Midway → last = some a.gtk

/-- The invariant: while a change of the group key is under way, the stations that hold keys may
still have the old one. -/
structure GroupInv (base : Option (Bytes × Nat)) (a : Abs) : Prop where
  fits : a.fits = true
  primary : a.plumbed = true → a.rekeying = false → primaryKey base a.log = some a.gtk
  sta : ∀ i, StationKeyed a (a.sta i) (lastGtk i a.log)

section Station

variable {a : Abs} {k k' : Core} {last last' : Option (Bytes × Nat)}

theorem StationKeyed.of_none (hdone : k.used = true → k.state ≠ .setkeysdone) (hmid : ¬k.Midway) :
    StationKeyed a k last := by
  refine ⟨fun h => ?_, fun _ hused hstate => absurd hstate (hdone hused), fun h => absurd h hmid⟩
  rcases h with ⟨hused, hstate⟩ | h
  · exact absurd hstate (hdone hused)
  · exact absurd h hmid

theorem Core.not_midway (hbusy : k.state.busy = false) (hhndlr : k.hndlr = false) : ¬k.Midway := by
  rintro ⟨-, hs | ⟨hs | hs, -⟩⟩
  · rw [hs] at hbusy
    cases hbusy
  · rw [hs] at hbusy
    cases hbusy
  · cases hhndlr.symm.trans hs

theorem StationKeyed.of_idle (h : k.used = true → k.state.busy = false ∧ k.hndlr = false) :
    StationKeyed a k last := by
  refine .of_none (fun hu hs => ?_) (fun hm => ?_)
  · have hbusy := (h hu).1
    rw [hs] at hbusy
    cases hbusy
  · exact Core.not_midway (h hm.1).1 (h hm.1).2 hm

/-- A station that is no further than before, and has been sent the current key or none. -/
theorem StationKeyed.mono (h : StationKeyed a k last)
    (hdone : k'.used = true → k'.state = .setkeysdone → k.used = true ∧ k.state = .setkeysdone)
    (hmid : k'.Midway → k.Midway) (hlast : last' = last ∨ last' = some a.gtk) :
    StationKeyed a k' last' := by
  refine ⟨fun hk => ?_, fun hr hused hstate => ?_, fun hk => ?_⟩
  · refine h.plumbed (hk.imp (fun hd => ?_) hmid)
    exact hdone hd.1 hd.2
  · obtain ⟨hu, hs⟩ := hdone hused hstate
    rcases hlast with rfl | hlast
    · exact h.done hr hu hs
    · exact hlast
  · rcases hlast with rfl | hlast
    · exact h.midway (hmid hk)
    · exact hlast

end Station

theorem lastGtk_send (i : Slot) (ea : Bytes) (k : KeyFrame) (gtk : Option (Bytes × Nat))
    (l : List Out) : lastGtk i ([.send i ea k gtk] ++ l) = gtk.or (lastGtk i l) := by
  simp [lastGtk]

/-- **A step of a station keeps its key.** -/
theorem Move.keyed (htaken : KeysTaken c) (hC : GroupCalm c w0 ev) {a : Abs} {i : Slot} {k : Core}
    {outs : List Out} (h : Move c ev w0 a i k outs)
    (ha : StationKeyed a (a.sta i) (lastGtk i a.log)) :
    StationKeyed a k (lastGtk i (outs ++ a.log)) := by
  cases h with
  | init ea now =>
      obtain ⟨mode, wsec, state, -, hstate, hcore⟩ := newSta_core c ea now
      rw [hcore]
      rcases hstate with rfl | rfl
      · exact .of_idle fun _ => ⟨rfl, rfl⟩
      · exact .of_idle fun _ => ⟨rfl, rfl⟩
  | drop used state hused hstate hkept =>
      rcases hstate with rfl | hbusy
      · have hu : used = true → (a.sta i).used = true := by
          rintro rfl
          rcases hused with hno | hsame
          · cases hno
          · exact hsame.symm
        refine ha.mono (fun hk hs => ⟨hu hk, hs⟩) (fun hm => ⟨hu hm.1, hm.2.imp id fun h => ?_⟩)
          (.inl rfl)
        exact ⟨.inl (h.1.resolve_right (by rintro ⟨⟩)), h.2⟩
      · exact .of_idle fun _ => ⟨hbusy, rfl⟩
  | restart nonce retry => exact .of_idle fun _ => ⟨rfl, rfl⟩
  | start =>
      refine ha.mono (fun _ => (by rintro ⟨⟩)) (fun hm => ?_) (.inl rfl)
      simp only [Core.Midway, reduceCtorEq, false_or] at hm ⊢
      exact ⟨hm.1, .inr ⟨.inr hm.2.1, hm.2.2⟩⟩
  | preauth f hev hon hold =>
      subst hev
      rcases hC with hoff | hknown
      · cases hon.symm.trans hoff
      rcases hold with ⟨-, hbusy, hhndlr⟩ | ⟨hfind, hsta, hheld⟩
      · exact .of_idle fun _ => ⟨hbusy, hhndlr⟩
      · refine ha.mono (fun hu hs => ⟨hu, hs⟩) (fun hm => ⟨hm.1, ?_⟩) (.inl rfl)
        rcases hknown i hfind with hyes | hwpa2 | ⟨hstate, hhndlr⟩
        · exact absurd hyes hheld
        · exact hm.2.imp id fun h => ⟨h.1, by rw [hsta]; exact hwpa2⟩
        · rcases hm.2 with hs | ⟨hs | hs, -⟩
          · exact .inl hs
          · rw [hsta] at hs
            exact absurd hs hstate
          · rw [hsta] at hs
            cases hhndlr.symm.trans hs
  | wepMode hwep hradius =>
      refine ha.mono (fun hu hs => ⟨hu, hs⟩) (fun hm => ⟨hm.1, hm.2.imp id fun h => ?_⟩) (.inl rfl)
      exact absurd h.2 (by decide : ¬checkWpa2 radius = true)
  | setup mode wsec pmk hok hpmk hidle =>
      refine .of_idle fun hu => ⟨?_, hidle.1⟩
      rcases hidle.2 with hno | hbusy
      · cases hu.symm.trans hno
      · exact hbusy
  | sendM1 kf td hstate hk htd hstart =>
    exact .of_none (fun _ => (by rintro ⟨⟩)) (by simp [Core.Midway])
  | badM2 ptk td hstate htd =>
      refine .of_none (fun _ hs => ?_) (fun hm => ?_)
      · cases hstate.symm.trans hs
      · obtain ⟨-, hs | ⟨hs | hs, -⟩⟩ := hm
        · cases hstate.symm.trans hs
        · cases hstate.symm.trans hs
        · cases hs
  | goodM2 f kf td hev hold hstate hflags hreplay hdesc hlen hplumbed hk htd =>
      rw [lastGtk_send]
      cases hwpa2 : checkWpa2 (a.sta i).mode with
      | true =>
          refine ⟨fun _ => hplumbed hwpa2 htaken, fun _ _ => (by rintro ⟨⟩), fun _ => ?_⟩
          rw [carried, if_pos hwpa2]
          rfl
      | false =>
          refine .of_none (fun _ => (by rintro ⟨⟩)) (fun hm => ?_)
          obtain ⟨-, hs | ⟨-, hs⟩⟩ := hm
          · cases hs
          · cases hwpa2.symm.trans hs
  | pairwiseDone hold hwhy hmode =>
      have hmid : (a.sta i).used = true → (a.sta i).Midway := by
        intro hu
        refine ⟨hu, .inr ⟨?_, ?_⟩⟩
        · rcases hwhy with ⟨hs, -⟩ | ⟨-, hexh⟩
          · exact .inl hs
          · rw [hold]
            simp only [exhausted, Bool.and_eq_true] at hexh
            exact .inr hexh.1.2
        · rcases hmode with hwds | hwpa2
          · rw [hold] at hwhy ⊢
            exact hC.finishes hwds hwhy
          · exact hwpa2
      refine ⟨fun hk => ?_, fun _ hu _ => ha.midway (hmid hu), fun hm => ?_⟩
      · rcases hk with ⟨hu, -⟩ | ⟨hu, -⟩
        · exact ha.plumbed (.inr (hmid hu))
        · exact ha.plumbed (.inr (hmid hu))
      · simp [Core.Midway] at hm
  | groupStart kf td hold hwhy hmode hplumbed hk =>
      rw [lastGtk_send]
      exact ⟨fun _ => hplumbed htaken, fun _ _ => (by rintro ⟨⟩), fun _ => rfl⟩
  | groupDone hold hstate hver =>
      have hmid : (a.sta i).used = true → (a.sta i).Midway := fun hu => ⟨hu, .inl hstate⟩
      refine ⟨fun hk => ?_, fun _ hu _ => ha.midway (hmid hu), fun hm => ?_⟩
      · rcases hk with ⟨hu, -⟩ | ⟨hu, -⟩
        · exact ha.plumbed (.inr (hmid hu))
        · exact ha.plumbed (.inr (hmid hu))
      · simp [Core.Midway] at hm
  | rekeySend kf td hstate hrk hk htd =>
      rw [lastGtk_send]
      refine ⟨fun h => ?_, fun _ _ => (by rintro ⟨⟩), fun _ => rfl⟩
      rcases h with ⟨-, hs⟩ | hm
      · cases hs
      · exact ha.plumbed (.inl ⟨hm.1, hstate⟩)
  | retx kf htd hk =>
      rw [lastGtk_send]
      refine ha.mono (fun hu hs => ⟨hu, hs⟩) (fun hm => hm) ?_
      unfold carried
      split
      · split
        · exact .inr rfl
        · exact .inl rfl
      · exact .inr rfl
      · exact .inl rfl
  | retxNothing htd hsends =>
      refine ha.mono (fun hu hs => ⟨hu, hs⟩) (fun hm => ⟨hm.1, hm.2.imp id fun h => ?_⟩) (.inl rfl)
      exact ⟨.inl (h.1.resolve_right (by rintro ⟨⟩)), h.2⟩
  | stop h =>
      refine ha.mono (fun hu hs => ⟨hu, hs⟩) (fun hm => ⟨hm.1, hm.2.imp id fun h => ?_⟩) (.inl rfl)
      exact ⟨.inl (h.1.resolve_right (by rintro ⟨⟩)), h.2⟩
  | _ => exact ha.mono (fun hu hs => ⟨hu, hs⟩) (fun hm => hm) (.inl rfl)

theorem Move.isGroupKey {a : Abs} {i : Slot} {k : Core} {outs : List Out}
    (h : Move c ev w0 a i k outs) : ∀ o ∈ outs, o.isGroupKey = false := by
  cases h <;> simp [Out.isGroupKey]

theorem Move.groupInv (htaken : KeysTaken c) (hC : GroupCalm c w0 ev)
    {base : Option (Bytes × Nat)} {a : Abs} {i : Slot} {k : Core} {outs : List Out}
    (h : Move c ev w0 a i k outs) (ha : GroupInv base a) : GroupInv base (a.put i k outs) := by
  refine ⟨ha.fits, fun hp hr => ?_, fun j => ?_⟩
  · rw [show (a.put i k outs).log = outs ++ a.log from rfl, primaryKey_append h.isGroupKey]
    exact ha.primary hp hr
  · by_cases hj : j = i
    · subst hj
      rw [Abs.put_sta_same]
      have hkeyed := h.keyed htaken hC (ha.sta j)
      exact ⟨hkeyed.plumbed, hkeyed.done, hkeyed.midway⟩
    · rw [Abs.put_sta_ne _ hj, show (a.put i k outs).log = outs ++ a.log from rfl,
        lastGtk_append (h.slot hj)]
      exact ⟨(ha.sta j).plumbed, (ha.sta j).done, (ha.sta j).midway⟩

/-- A group key is plumbed: what is left to show is that no station is concerned. -/
theorem GroupInv.plumb (htaken : KeysTaken c) {base : Option (Bytes × Nat)} {a : Abs}
    (hfits : a.fits = true) (n : Nat) (tx : Bool) (rsc : Bytes)
    (htx : a.rekeying = false → tx = true)
    (hdone : a.rekeying = false → ∀ i, (a.sta i).used = true → (a.sta i).state = .setkeysdone →
      lastGtk i a.log = some a.gtk)
    (hmid : ∀ i, (a.sta i).Midway → lastGtk i a.log = some a.gtk) :
    GroupInv base (a.plumb c n tx rsc) := by
  have hret : 0 ≤ c.drv.setKey n (groupArgs a.gtk tx rsc) := htaken n _ rfl
  refine ⟨hfits, fun _ hr => ?_, fun i => ⟨fun _ => ?_, fun hr => hdone hr i, hmid i⟩⟩
  · rw [htx hr] at hret
    simp only [Abs.plumb, htx hr]
    exact primaryKey_plumb base a.gtk hret rsc a.log
  · simp [Abs.plumb, hret]

theorem AStep.groupInv (hrole : c.cfg.role = .authenticator) (htaken : KeysTaken c)
    (hC : GroupCalm c w0 ev) {base : Option (Bytes × Nat)} {a b : Abs} (ha : GroupInv base a)
    (h : AStep c ev w0 a b) : GroupInv base b := by
  cases h with
  | move i h => exact h.groupInv htaken hC ha
  | gtkInit gtk fits n rsc hplumbed hfits =>
      -- Without a group key nobody is concerned.
      have hnone : ∀ i, ¬(((a.sta i).used = true ∧ (a.sta i).state = .setkeysdone)
          ∨ (a.sta i).Midway) := by
        intro i hi
        cases ((ha.sta i).plumbed hi).symm.trans hplumbed
      refine GroupInv.plumb htaken (hfits ha.fits) n true rsc (fun _ => rfl) (fun _ i hu hs => ?_)
        (fun i hm => ?_)
      · exact absurd (.inl ⟨hu, hs⟩) (hnone i)
      · exact absurd (.inr hm) (hnone i)
  | gtkNew gtk fits n rsc hev hold hone hfits =>
      refine GroupInv.plumb htaken (hfits ha.fits) n false rsc (by rintro ⟨⟩) (by rintro ⟨⟩)
        (fun i hm => ?_)
      have hm0 : (a.sta i).Midway := hm
      rw [hold i] at hm0
      obtain ⟨j, hu, hs⟩ := hone
      rw [hold j] at hu hs
      rcases hC.rekeys hev with hno | hno
      · exact absurd hs (hno j hu)
      · exact absurd hm0 (hno i)
  | gtkDone n rsc hall =>
      refine GroupInv.plumb (a := { a with rekeying := false }) htaken ha.fits n true rsc
        (fun _ => rfl) (fun _ i hu hs => ?_) (fun i => (ha.sta i).midway)
      exact absurd hs (hall i hu)
  | gtkPad gtk fits hno => cases ha.fits.symm.trans hno
  | linkDown m hev hwds hwep hflag hold =>
      subst hev
      have hnone : ∀ i, ¬(a.sta i).Midway
          ∧ ¬((a.sta i).used = true ∧ (a.sta i).state = .setkeysdone) := by
        intro i
        rcases hC with h | h | h | h
        · cases h.symm.trans hwds
        · cases h.symm.trans hwep
        · cases h.symm.trans hflag
        · rw [hold i]
          exact h i
      refine ⟨ha.fits, (by rintro ⟨⟩), fun i => .of_none (fun hu hs => ?_) (hnone i).1⟩
      exact (hnone i).2 ⟨hu, hs⟩
  | clobber r r' hall => exact ⟨ha.fits, (by rintro ⟨⟩), fun i => .of_idle (hall i)⟩
  | supplicant a' hsup hlog hie => cases hrole.symm.trans hsup

/-! ## Runs -/

/-- **The stations that hold keys have the group key that is used for sending**, in every run of an
authenticator whose driver accepts the group keys and in which no event catches a station midway. -/
theorem group_key_agreed (c : Ctx) (hrole : c.cfg.role = .authenticator) (htaken : KeysTaken c)
    (es : List (Nat × Event))
    (hC : Along (step c) (fun w e => GroupCalm c w e.2) (initWorld c) es)
    (hlive : (run (step c) (initWorld c) es).halted = false) :
    GroupAgreed c (run (step c) (initWorld c) es) := by
  have hstart : ∀ a, Starts c a → GroupInv c.cfg.staticKey a := by
    intro a ha
    refine ⟨ha.fits, fun hp _ => ?_, fun i => ?_⟩
    · rw [ha.log]
      exact ha.plumbed hp
    · rw [ha.sta]
      exact .of_idle (by rintro ⟨⟩)
  obtain ⟨a, ha, hinv⟩ := run_sim (C := GroupCalm c) trivial hstart
    (fun w ev hwe a b ha hab => hab.groupInv hrole htaken hwe ha) hC
  obtain rfl := ha.eq_abs hlive
  intro i hu hs
  have hlast := (hinv.sta i).done rfl hu hs
  have hprimary := hinv.primary ((hinv.sta i).plumbed (.inl ⟨hu, hs⟩)) rfl
  rw [ha.log, lastGtk_visible] at hlast
  rw [ha.log, primaryKey_visible] at hprimary
  exact ⟨_, hlast, hprimary⟩

theorem pskContext_keysTaken : KeysTaken pskContext := fun _ _ _ => le_refl 0

set_option maxRecDepth 100000 in
/-- A station associates and answers messages 1 and 3. -/
theorem group_key_agreed_joined :
    GroupAgreed pskContext (run (step pskContext) (initWorld pskContext) (joining pskContext)) := by
  have hrun : Along (step pskContext) (fun w e => GroupCalm pskContext w e.2) (initWorld pskContext)
        (joining pskContext)
      ∧ (run (step pskContext) (initWorld pskContext) (joining pskContext)).halted = false := by
    rw [pskContext_packed]
    decide +kernel
  exact group_key_agreed pskContext rfl pskContext_keysTaken _ hrun.1 hrun.2

/-- The slot of the second station. -/
def secondSlot : Slot := ⟨1, by decide⟩

/-- After a station has joined, a second one does, and the group key is changed before it answers
message 3. -/
def joiningRekeyed : List (Nat × Event) :=
  script pskContext (initWorld pskContext) (joinScript pskContext ++
    [fun _ => .assoc (assocFrom [2, 0, 0, 0, 0, 10] (rsnElement 0)),
      fun w => .eapol (w.message2 pskContext secondSlot), fun _ => .forceRekey,
      fun w => .eapol (w.message4 pskContext secondSlot)])

set_option maxRecDepth 100000 in
/-- **A rekey between messages 3 and 4**: the station is in `WPA_SETKEYSDONE` with the old group
key. -/
theorem rekey_midway :
    ¬ ∀ (c : Ctx), c.cfg.role = .authenticator → KeysTaken c → ∀ es : List (Nat × Event),
      (run (step c) (initWorld c) es).halted = false →
      GroupAgreed c (run (step c) (initWorld c) es) := by
  intro h
  have hrun : let w := run (step pskContext) (initWorld pskContext) joiningRekeyed
      w.halted = false ∧ (w.sta secondSlot).used = true
        ∧ (w.sta secondSlot).state = .setkeysdone
        ∧ lastGtk secondSlot w.log ≠ primaryKey none w.log := by
    rw [joiningRekeyed, pskContext_packed]
    decide +kernel
  obtain ⟨gtk, hlast, hprimary⟩ :=
    h pskContext rfl pskContext_keysTaken _ hrun.1 secondSlot hrun.2.1 hrun.2.2.1
  exact hrun.2.2.2 (hlast.trans hprimary.symm)

end BroadcomWl.Nas
