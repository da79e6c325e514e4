import BroadcomWl.Shadow.SkbPool

/-!
# Who owns a packet and its shadow

The blob may use a shadow from the moment it gets it to the moment it gives it away. `holds` is
this relation, and the invariant `Owned` says that it is a bijection between the shadows that the
blob holds and the packets that the driver owns. Three changes keep it: a packet that the driver
does not own changes (`Owned.outside`), a packet and a shadow are taken (`Owned.take`), and both are
given away (`Owned.give`). Every path of the data path is made of these.

**`shadow_ownership`** is the consequence for runs: one shadow per packet, a true live counter,
each shadow released once, and no access to a released shadow. A shadow that a refused transmit has
left behind is not held by anyone, so it stays (`retry_wraps_again`).
-/

namespace BroadcomWl.Shadow.SkbPool

open BroadcomWl.Lib

/-! ## Owners -/

/-- Who owns the packet at an address. -/
def State.ownerOf (s : State) (r : Ptr) : Option Owner := (s.skbs.lookup r).map SkBuff.owner

/-- The packet of a shadow that the blob holds. -/
def State.holds (s : State) (p : Ptr) : Option Ptr :=
  match s.shadows.lookup p with
  | some sh => if sh.abandoned then none else some sh.real
  | none => none

/-- The shadows that the blob holds are those of the packets that the driver owns, one each. -/
structure Owned (holds : Ptr → Option Ptr) (ownerOf : Ptr → Option Owner) : Prop where
  driver : ∀ p r, holds p = some r → ownerOf r = some .driver
  held : ∀ r, ownerOf r = some .driver → ∃ p, holds p = some r
  unique : ∀ p q r, holds p = some r → holds q = some r → p = q

namespace Owned

variable {holds : Ptr → Option Ptr} {ownerOf : Ptr → Option Owner} {p r : Ptr} {o : Option Owner}

theorem outside (h : Owned holds ownerOf) (hr : ownerOf r ≠ some .driver)
    (ho : o ≠ some .driver) : Owned holds (Function.update ownerOf r o) where
  driver := by
    intro q r' hq
    have hd := h.driver q r' hq
    have hne : r' ≠ r := by
      intro heq
      exact hr (heq ▸ hd)
    rw [Function.update_of_ne hne, hd]
  held := by
    intro r' hr'
    by_cases hne : r' = r
    · subst hne
      rw [Function.update_self] at hr'
      exact absurd hr' ho
    · rw [Function.update_of_ne hne] at hr'
      exact h.held r' hr'
  unique := h.unique

theorem take (h : Owned holds ownerOf) (hr : ownerOf r ≠ some .driver) (hp : holds p = none) :
    Owned (Function.update holds p (some r)) (Function.update ownerOf r (some .driver)) where
  driver := by
    intro q r' hq
    by_cases hqp : q = p
    · subst hqp
      rw [Function.update_self] at hq
      cases hq
      exact Function.update_self ..
    · rw [Function.update_of_ne hqp] at hq
      have hd := h.driver q r' hq
      have hne : r' ≠ r := by
        intro heq
        exact hr (heq ▸ hd)
      rw [Function.update_of_ne hne, hd]
  held := by
    intro r' hr'
    by_cases hne : r' = r
    · subst hne
      exact ⟨p, Function.update_self ..⟩
    · rw [Function.update_of_ne hne] at hr'
      obtain ⟨q, hq⟩ := h.held r' hr'
      have hqp : q ≠ p := by
        intro heq
        rw [heq, hp] at hq
        cases hq
      exact ⟨q, by rw [Function.update_of_ne hqp, hq]⟩
  unique := by
    intro a b r' ha hb
    -- the packet that is taken had no shadow, so its new one is the only one
    have hnone : ∀ q, holds q ≠ some r := fun q hq => hr (h.driver q r hq)
    by_cases hap : a = p
    · by_cases hbp : b = p
      · rw [hap, hbp]
      · rw [hap, Function.update_self] at ha
        cases ha
        rw [Function.update_of_ne hbp] at hb
        exact absurd hb (hnone b)
    · rw [Function.update_of_ne hap] at ha
      by_cases hbp : b = p
      · rw [hbp, Function.update_self] at hb
        cases hb
        exact absurd ha (hnone a)
      · rw [Function.update_of_ne hbp] at hb
        exact h.unique a b r' ha hb

theorem give (h : Owned holds ownerOf) (hp : holds p = some r) (ho : o ≠ some .driver) :
    Owned (Function.update holds p none) (Function.update ownerOf r o) where
  driver := by
    intro q r' hq
    by_cases hqp : q = p
    · subst hqp
      rw [Function.update_self] at hq
      cases hq
    · rw [Function.update_of_ne hqp] at hq
      have hne : r' ≠ r := by
        intro heq
        exact hqp (h.unique q p r (heq ▸ hq) hp)
      rw [Function.update_of_ne hne, h.driver q r' hq]
  held := by
    intro r' hr'
    by_cases hne : r' = r
    · subst hne
      rw [Function.update_self] at hr'
      exact absurd hr' ho
    · rw [Function.update_of_ne hne] at hr'
      obtain ⟨q, hq⟩ := h.held r' hr'
      have hqp : q ≠ p := by
        intro heq
        rw [heq, hp] at hq
        exact hne (Option.some.inj hq).symm
      exact ⟨q, by rw [Function.update_of_ne hqp, hq]⟩
  unique := by
    intro a b r' ha hb
    have hap : a ≠ p := by
      intro heq
      rw [heq, Function.update_self] at ha
      cases ha
    have hbp : b ≠ p := by
      intro heq
      rw [heq, Function.update_self] at hb
      cases hb
    rw [Function.update_of_ne hap] at ha
    rw [Function.update_of_ne hbp] at hb
    exact h.unique a b r' ha hb

end Owned

/-! ## What the operations change -/

section Changes

variable (s : State) {p r : Ptr} {k : SkBuff} {sh : SkbShadow}

theorem holds_congr {s s' : State} (h : s'.shadows = s.shadows) : s'.holds = s.holds := by
  funext q
  simp only [State.holds, h]

theorem ownerOf_congr {s s' : State} (h : s'.skbs = s.skbs) : s'.ownerOf = s.ownerOf := by
  funext x
  simp only [State.ownerOf, h]

theorem ownerOf_insert :
    ({ s with skbs := s.skbs.insert r k } : State).ownerOf =
      Function.update s.ownerOf r (some k.owner) := by
  funext x
  by_cases hx : x = r
  · subst hx
    simp [State.ownerOf]
  · simp [State.ownerOf, hx, AList.lookup_insert_ne hx]

theorem ownerOf_kfreeSkb : (s.kfreeSkb r).ownerOf = Function.update s.ownerOf r none := by
  funext x
  by_cases hx : x = r
  · subst hx
    simp [State.ownerOf, State.kfreeSkb]
  · simp [State.ownerOf, State.kfreeSkb, hx, AList.lookup_erase_ne hx]

theorem holds_insert :
    ({ s with shadows := s.shadows.insert p sh } : State).holds =
      Function.update s.holds p (if sh.abandoned then none else some sh.real) := by
  funext q
  by_cases hq : q = p
  · subst hq
    simp [State.holds]
  · simp [State.holds, hq, AList.lookup_insert_ne hq]

theorem holds_erase :
    ({ s with shadows := s.shadows.erase p } : State).holds = Function.update s.holds p none := by
  funext q
  by_cases hq : q = p
  · subst hq
    simp [State.holds]
  · simp [State.holds, hq, AList.lookup_erase_ne hq]

variable {s}

theorem setSkb_eq (hk : s.skbs.lookup r = some k) (f : SkBuff → SkBuff) :
    s.setSkb r f = { s with skbs := s.skbs.insert r (f k) } := by
  simp only [State.setSkb, hk]

theorem ownerOf_setSkb_of_lookup (hk : s.skbs.lookup r = some k) (f : SkBuff → SkBuff) :
    (s.setSkb r f).ownerOf = Function.update s.ownerOf r (some (f k).owner) := by
  rw [setSkb_eq hk, ownerOf_insert]

theorem setShadow_eq (hsh : s.shadows.lookup p = some sh) (f : SkbShadow → SkbShadow) :
    s.setShadow p f = { s with shadows := s.shadows.insert p (f sh) } := by
  simp only [State.setShadow, hsh]

variable (s)

@[simp] theorem setSkb_shadows (r : Ptr) (f : SkBuff → SkBuff) :
    (s.setSkb r f).shadows = s.shadows := by
  unfold State.setSkb
  split <;> rfl

@[simp] theorem setSkb_live (r : Ptr) (f : SkBuff → SkBuff) : (s.setSkb r f).live = s.live := by
  unfold State.setSkb
  split <;> rfl

@[simp] theorem setSkb_log (r : Ptr) (f : SkBuff → SkBuff) : (s.setSkb r f).log = s.log := by
  unfold State.setSkb
  split <;> rfl

@[simp] theorem setSkb_notok (r : Ptr) (f : SkBuff → SkBuff) : (s.setSkb r f).notok = s.notok := by
  unfold State.setSkb
  split <;> rfl

@[simp] theorem setShadow_notok (p : Ptr) (f : SkbShadow → SkbShadow) :
    (s.setShadow p f).notok = s.notok := by
  unfold State.setShadow
  split <;> rfl

@[simp] theorem touch_notok (p : Ptr) : (s.touch p).notok = s.notok := by
  unfold State.touch
  split <;> rfl

@[simp] theorem setShadow_skbs (p : Ptr) (f : SkbShadow → SkbShadow) :
    (s.setShadow p f).skbs = s.skbs := by
  unfold State.setShadow
  split <;> rfl

@[simp] theorem setShadow_live (p : Ptr) (f : SkbShadow → SkbShadow) :
    (s.setShadow p f).live = s.live := by
  unfold State.setShadow
  split <;> rfl

@[simp] theorem setShadow_log (p : Ptr) (f : SkbShadow → SkbShadow) :
    (s.setShadow p f).log = s.log := by
  unfold State.setShadow
  split <;> rfl

theorem mem_setShadow (p q : Ptr) (f : SkbShadow → SkbShadow) :
    q ∈ (s.setShadow p f).shadows ↔ q ∈ s.shadows := by
  unfold State.setShadow
  split
  · rename_i sh hsh
    have hp : p ∈ s.shadows := AList.lookup_isSome.mp (by rw [hsh]; rfl)
    rw [AList.mem_insert]
    constructor
    · rintro (rfl | hq)
      · exact hp
      · exact hq
    · exact Or.inr
  · rfl

theorem setShadow_keys_length (p : Ptr) (f : SkbShadow → SkbShadow) :
    (s.setShadow p f).shadows.keys.length = s.shadows.keys.length := by
  unfold State.setShadow
  split
  · rename_i sh hsh
    have hp : p ∈ s.shadows := AList.lookup_isSome.mp (by rw [hsh]; rfl)
    have hpos := List.length_pos_of_mem hp
    rw [AList.keys_insert, List.length_cons, List.length_erase_of_mem hp]
    omega
  · rfl

@[simp] theorem touch_skbs (p : Ptr) : (s.touch p).skbs = s.skbs := by
  unfold State.touch
  split <;> rfl

@[simp] theorem touch_shadows (p : Ptr) : (s.touch p).shadows = s.shadows := by
  unfold State.touch
  split <;> rfl

end Changes

/-! ## The counter and the log -/

/-- `wl_skb_live` counts the shadows, and the log has them in use and is legal. -/
structure Counted (s : State) : Prop where
  live : s.live = s.shadows.keys.length
  legal : Legal s.log
  inUse : ∀ p, InUse p s.log ↔ p ∈ s.shadows
  null : 0 ∉ s.shadows

namespace Counted

variable {s : State} {p : Ptr}

theorem congr {s' : State} (h : Counted s) (hsh : s'.shadows = s.shadows)
    (hlive : s'.live = s.live) (hlog : s'.log = s.log) : Counted s' where
  live := by rw [hlive, hsh, h.live]
  legal := by rw [hlog]; exact h.legal
  inUse := by rw [hlog, hsh]; exact h.inUse
  null := by rw [hsh]; exact h.null

theorem touch (h : Counted s) (hp : p ∈ s.shadows) : Counted (s.touch p) := by
  unfold State.touch
  split
  · exact h
  · exact ⟨h.live, ⟨(h.inUse p).mpr hp, h.legal⟩, h.inUse, h.null⟩

theorem setShadow (h : Counted s) (p : Ptr) (f : SkbShadow → SkbShadow) :
    Counted (s.setShadow p f) := by
  refine ⟨?_, ?_, fun q => ?_, ?_⟩
  · rw [setShadow_live, h.live, setShadow_keys_length]
  · rw [setShadow_log]
    exact h.legal
  · rw [setShadow_log, mem_setShadow, h.inUse]
  · rw [mem_setShadow]
    exact h.null

theorem alloc (h : Counted s) (hp : p ∉ s.shadows) (hnull : p ≠ 0) (sh : SkbShadow) :
    Counted { s with
      shadows := s.shadows.insert p sh, live := s.live + 1, log := .alloc p :: s.log } where
  live := by
    rw [AList.keys_insert, List.erase_of_not_mem hp, List.length_cons, h.live]
    push_cast
    rfl
  legal := ⟨fun huse => hp ((h.inUse p).mp huse), h.legal⟩
  inUse := by
    intro q
    rw [AList.mem_insert, inUse_alloc, h.inUse]
  null := by
    rw [AList.mem_insert]
    rintro (h0 | h0)
    · exact hnull h0.symm
    · exact h.null h0

theorem shadowPut (h : Counted s) (hp : p ∈ s.shadows) : Counted (s.shadowPut p) := by
  obtain ⟨sh, hsh⟩ := Option.isSome_iff_exists.mp (AList.lookup_isSome.mpr hp)
  simp only [State.shadowPut, hsh]
  have huse := (h.inUse p).mpr hp
  refine ⟨?_, ⟨huse, huse, h.legal⟩, ?_, ?_⟩
  · have hpos := List.length_pos_of_mem hp
    change s.live - 1 = ((s.shadows.erase p).keys.length : Int)
    rw [AList.keys_erase, List.length_erase_of_mem hp, h.live]
    omega
  · intro q
    rw [AList.mem_erase, inUse_release, inUse_use, h.inUse]
  · rw [AList.mem_erase]
    exact fun h0 => h.null h0.2

end Counted

/-! ## The contract -/

/-- The packets of a chain, as the loop in `osl_pktfree` meets them. -/
def chain : Nat → State → Ptr → List Ptr
  | 0, _, _ => []
  | n + 1, s, p =>
      if p = 0 then []
      else
        match s.shadows.lookup p with
        | none => [p]
        | some sh => p :: chain n s sh.next

/-- The chain that `osl_pktfree` is called for. -/
def State.chainOf (s : State) (p : Ptr) : List Ptr := chain (s.shadows.entries.length + 1) s p

/-- An address for a new packet. -/
def State.FreshSkb (s : State) (r : Ptr) : Prop := r ≠ 0 ∧ r ∉ s.skbs

/-- An address for a new data area. -/
def State.FreshArea (s : State) (area : Ptr) : Prop := ∀ e ∈ s.skbs.entries, e.2.area ≠ area

/-- An address for a new shadow. -/
def State.FreshShadow (s : State) (p : Ptr) : Prop := p ≠ 0 ∧ p ∉ s.shadows

/-- The blob holds the shadow. -/
def State.Held (s : State) (p : Ptr) : Prop := (s.holds p).isSome

/-- What the shim relies on. The allocators give out what is not in use. The stack frees, marks
and transmits only its own packets. The blob passes only shadows that it holds, chains them
without repetition, and refuses a packet only while it is asked to send it and has it still. -/
def Allowed (s : State) : Event → Prop
  | .stackAlloc r area => s.FreshSkb r ∧ s.FreshArea area
  | .stackClone r r' => r ∈ s.skbs ∧ s.FreshSkb r'
  | .stackHeaderRelease r => s.ownerOf r = some .kernel
  | .stackFree r => s.ownerOf r = some .kernel
  | .startXmit r .noFn => s.ownerOf r = some .kernel
  | .startXmit r (.fn area sh) =>
      s.ownerOf r = some .kernel ∧ (∀ b ∈ area, s.FreshArea b) ∧ ∀ p ∈ sh, s.FreshShadow p
  | .xmitReturn p ok => ok = false → s.Held p ∧ ∀ sh ∈ s.shadows.lookup p, sh.sending
  | .devAllocSkb real sh =>
      (∀ r ∈ real, s.FreshSkb r.1 ∧ s.FreshArea r.2) ∧ ∀ p ∈ sh, s.FreshShadow p
  | .pktget real sh =>
      (∀ r ∈ real, s.FreshSkb r.1 ∧ s.FreshArea r.2) ∧ ∀ p ∈ sh, s.FreshShadow p
  | .pktdup p clone sh =>
      s.Held p ∧ (∀ r ∈ clone, s.FreshSkb r) ∧ ∀ p' ∈ sh, s.FreshShadow p'
  | .pktfree p => (∀ q ∈ s.chainOf p, s.Held q) ∧ (s.chainOf p).Nodup
  | .netifRx p => s.Held p
  | .rerouted p => s.Held p
  | .unwrap p => s.Held p
  | .setNext p _ => s.Held p

instance (s : State) (r : Ptr) : Decidable (s.FreshSkb r) := by
  unfold State.FreshSkb
  infer_instance

instance (s : State) (area : Ptr) : Decidable (s.FreshArea area) := by
  unfold State.FreshArea
  infer_instance

instance (s : State) (p : Ptr) : Decidable (s.FreshShadow p) := by
  unfold State.FreshShadow
  infer_instance

instance (s : State) (p : Ptr) : Decidable (s.Held p) := by
  unfold State.Held
  infer_instance

instance (s : State) (e : Event) : Decidable (Allowed s e) := by
  cases e with
  | startXmit r entry => cases entry <;> dsimp only [Allowed] <;> infer_instance
  | _ => dsimp only [Allowed]; infer_instance

/-! ## Steps -/

/-- **The invariant of the data path.** -/
structure Inv (s : State) : Prop where
  owned : Owned s.holds s.ownerOf
  counted : Counted s
  /-- Without a refused transmit the blob holds every shadow. -/
  refused : s.notok = 0 → ∀ p ∈ s.shadows, s.Held p

section Steps

variable {s : State} {p r : Ptr} {k : SkBuff} {sh : SkbShadow}

theorem State.Held.mem (h : s.Held p) : p ∈ s.shadows := by
  unfold State.Held State.holds at h
  split at h
  · rename_i sh hsh
    exact AList.lookup_isSome.mp (by rw [hsh]; rfl)
  · cases h

theorem State.Held.lookup (h : s.Held p) :
    ∃ sh, s.shadows.lookup p = some sh ∧ sh.abandoned = false ∧ s.holds p = some sh.real := by
  unfold State.Held at h
  unfold State.holds at h ⊢
  split at h
  · rename_i sh hsh
    cases hab : sh.abandoned with
    | false => exact ⟨sh, hsh, hab, rfl⟩
    | true =>
        rw [hab] at h
        cases h
  · cases h

theorem holds_none_of_not_mem (hp : p ∉ s.shadows) : s.holds p = none := by
  simp only [State.holds, AList.lookup_eq_none.mpr hp]

theorem ownerOf_none_of_not_mem (hr : r ∉ s.skbs) : s.ownerOf r = none := by
  simp only [State.ownerOf, AList.lookup_eq_none.mpr hr, Option.map_none]

theorem Inv.insertSkb (h : Inv s) (hr : s.ownerOf r ≠ some .driver) (hk : k.owner = .kernel) :
    Inv { s with skbs := s.skbs.insert r k } where
  owned := by
    rw [ownerOf_insert, hk]
    change Owned s.holds _
    exact h.owned.outside hr (by decide)
  counted := h.counted.congr rfl rfl rfl
  refused := h.refused

theorem Inv.kfreeSkb (h : Inv s) (hr : s.ownerOf r ≠ some .driver) : Inv (s.kfreeSkb r) where
  owned := by
    rw [ownerOf_kfreeSkb]
    change Owned s.holds _
    exact h.owned.outside hr (by decide)
  counted := h.counted.congr rfl rfl rfl
  refused := h.refused

theorem ownerOf_setSkb (f : SkBuff → SkBuff) (hf : ∀ k, (f k).owner = k.owner) :
    (s.setSkb r f).ownerOf = s.ownerOf := by
  unfold State.setSkb
  split
  · rename_i k hk
    rw [ownerOf_insert, hf]
    apply Function.update_eq_self_iff.mpr
    simp [State.ownerOf, hk]
  · rfl

theorem holds_setShadow (f : SkbShadow → SkbShadow) (hreal : ∀ sh, (f sh).real = sh.real)
    (hab : ∀ sh, (f sh).abandoned = sh.abandoned) : (s.setShadow p f).holds = s.holds := by
  unfold State.setShadow
  split
  · rename_i sh hsh
    rw [holds_insert, hreal, hab]
    apply Function.update_eq_self_iff.mpr
    simp [State.holds, hsh]
  · rfl

theorem Inv.setSkb (h : Inv s) (r : Ptr) {f : SkBuff → SkBuff} (hf : ∀ k, (f k).owner = k.owner) :
    Inv (s.setSkb r f) where
  owned := by
    rw [ownerOf_setSkb f hf, holds_congr (setSkb_shadows s r f)]
    exact h.owned
  counted := h.counted.congr (setSkb_shadows s r f) (setSkb_live s r f) (setSkb_log s r f)
  refused := by
    rw [setSkb_notok, setSkb_shadows]
    unfold State.Held
    rw [holds_congr (setSkb_shadows s r f)]
    exact h.refused

theorem Inv.touch (h : Inv s) (hp : p ∈ s.shadows) : Inv (s.touch p) where
  owned := by
    rw [holds_congr (touch_shadows s p), ownerOf_congr (touch_skbs s p)]
    exact h.owned
  counted := h.counted.touch hp
  refused := by
    rw [touch_notok, touch_shadows]
    unfold State.Held
    rw [holds_congr (touch_shadows s p)]
    exact h.refused

/-- A change of a shadow that leaves its packet alone and the blob in possession. -/
theorem Inv.setShadow (h : Inv s) (p : Ptr) {f : SkbShadow → SkbShadow}
    (hreal : ∀ sh, (f sh).real = sh.real) (hab : ∀ sh, (f sh).abandoned = sh.abandoned) :
    Inv (s.setShadow p f) where
  owned := by
    rw [holds_setShadow f hreal hab, ownerOf_congr (setShadow_skbs s p f)]
    exact h.owned
  counted := h.counted.setShadow p f
  refused := by
    intro hnotok q hq
    rw [setShadow_notok] at hnotok
    rw [mem_setShadow] at hq
    unfold State.Held
    rw [holds_setShadow f hreal hab]
    exact h.refused hnotok q hq

theorem Inv.syncDown (h : Inv s) (hp : p ∈ s.shadows) : Inv (s.syncDown p) :=
  (h.touch hp).setShadow p (fun _ => rfl) fun _ => rfl

theorem syncDown_holds : (s.syncDown p).holds = s.holds := by
  have hset : (s.syncDown p).holds = (s.touch p).holds :=
    holds_setShadow _ (fun _ => rfl) fun _ => rfl
  rw [hset, holds_congr (touch_shadows s p)]

@[simp] theorem syncDown_skbs : (s.syncDown p).skbs = s.skbs := by
  unfold State.syncDown
  rw [setShadow_skbs, touch_skbs]

/-- **A packet of the kernel's is wrapped, or freed.** -/
theorem Inv.wrapOrFree (h : Inv s) (hr : s.ownerOf r = some .kernel) {sh : Option Ptr}
    (hfresh : ∀ p ∈ sh, s.FreshShadow p) (sending : Bool) : Inv (s.wrapOrFree r sh sending) := by
  have hout : s.ownerOf r ≠ some .driver := by
    rw [hr]
    decide
  cases sh with
  | none => exact h.kfreeSkb hout
  | some p =>
      obtain ⟨hnull, hp⟩ := hfresh p rfl
      obtain ⟨k, hk, -⟩ := Option.map_eq_some_iff.mp hr
      have hskbs : (s.wrap r p sending).skbs = s.skbs := syncDown_skbs
      have hlookup : (s.wrap r p sending).skbs.lookup r = some k := by rw [hskbs, hk]
      have hholds' : (s.wrapOrFree r (some p) sending).holds =
          Function.update s.holds p (some r) := by
        rw [State.wrapOrFree, holds_congr (setSkb_shadows _ r _), State.wrap, syncDown_holds]
        exact holds_insert s
      have hmem : ∀ q, q ∈ (s.wrapOrFree r (some p) sending).shadows ↔ q = p ∨ q ∈ s.shadows := by
        intro q
        rw [State.wrapOrFree, setSkb_shadows, State.wrap, State.syncDown, mem_setShadow,
          touch_shadows]
        exact AList.mem_insert _
      constructor
      · have howner : (s.wrapOrFree r (some p) sending).ownerOf =
            Function.update s.ownerOf r (some .driver) := by
          rw [State.wrapOrFree, ownerOf_setSkb_of_lookup hlookup, ownerOf_congr hskbs]
        rw [hholds', howner]
        exact h.owned.take hout (holds_none_of_not_mem hp)
      · have hwrap : Counted (s.wrap r p sending) := by
          have halloc := h.counted.alloc hp hnull ⟨r, false, 0, sending, false⟩
          exact (halloc.touch ((AList.mem_insert _).mpr (.inl rfl))).setShadow p _
        exact hwrap.congr (setSkb_shadows _ r _) (setSkb_live _ r _) (setSkb_log _ r _)
      · intro hnotok q hq
        unfold State.Held
        rw [hholds']
        by_cases hqp : q = p
        · rw [hqp, Function.update_self]
          rfl
        · rw [Function.update_of_ne hqp]
          rw [hmem, or_iff_right hqp] at hq
          refine h.refused ?_ q hq
          simpa [State.wrapOrFree, State.wrap, State.syncDown] using hnotok

theorem shadowPut_eq (hp : p ∈ s.shadows) :
    s.shadowPut p = { s with
      shadows := s.shadows.erase p, live := s.live - 1
      log := .release p :: .use p :: s.log } := by
  obtain ⟨sh, hsh⟩ := Option.isSome_iff_exists.mp (AList.lookup_isSome.mpr hp)
  simp only [State.shadowPut, hsh]

theorem shadowPut_holds (hp : p ∈ s.shadows) :
    (s.shadowPut p).holds = Function.update s.holds p none := by
  rw [shadowPut_eq hp]
  exact holds_erase s

theorem shadowPut_skbs (s : State) (p : Ptr) : (s.shadowPut p).skbs = s.skbs := by
  unfold State.shadowPut
  split
  · exact touch_skbs s p
  · rfl

theorem Inv.give {s' : State} (h : Inv s) (hheld : s.holds p = some r) {o : Option Owner}
    (ho : o ≠ some .driver) (hholds : s'.holds = Function.update s.holds p none)
    (howner : s'.ownerOf = Function.update s.ownerOf r o) (hcounted : Counted s')
    (hnotok : s'.notok = 0 → s.notok = 0 ∧ ∀ q ∈ s'.shadows, q ≠ p ∧ q ∈ s.shadows) : Inv s' where
  owned := by
    rw [hholds, howner]
    exact h.owned.give hheld ho
  counted := hcounted
  refused := by
    intro hzero q hq
    obtain ⟨hzero', hmem⟩ := hnotok hzero
    obtain ⟨hne, hq'⟩ := hmem q hq
    unfold State.Held
    rw [hholds, Function.update_of_ne hne]
    exact h.refused hzero' q hq'

theorem mem_unlink {q : Ptr} : q ∈ (s.unlink p).shadows ↔ q ∈ s.shadows := by
  rw [State.unlink, touch_shadows, mem_setShadow, touch_shadows]

theorem unlink_holds : (s.unlink p).holds = s.holds := by
  have hset : ((s.touch p).setShadow p fun sh => { sh with next := 0 }).holds = (s.touch p).holds :=
    holds_setShadow _ (fun _ => rfl) fun _ => rfl
  rw [State.unlink, holds_congr (touch_shadows _ p), hset, holds_congr (touch_shadows s p)]

theorem unlink_notok : (s.unlink p).notok = s.notok := by
  rw [State.unlink, touch_notok, setShadow_notok, touch_notok]

theorem unlink_skbs : (s.unlink p).skbs = s.skbs := by
  rw [State.unlink, touch_skbs, setShadow_skbs, touch_skbs]

theorem Counted.unlink (h : Counted s) (hp : p ∈ s.shadows) : Counted (s.unlink p) := by
  have h1 := (h.touch hp).setShadow p fun sh => { sh with next := 0 }
  apply h1.touch
  rw [mem_setShadow, touch_shadows]
  exact hp

theorem pktfreeOne_holds (hp : p ∈ s.shadows) :
    (pktfreeOne s p sh).holds = Function.update s.holds p none := by
  have hp' : p ∈ ((s.unlink p).kfreeSkb sh.real).shadows := mem_unlink.mpr hp
  rw [pktfreeOne, shadowPut_holds hp']
  change Function.update (s.unlink p).holds p none = _
  rw [unlink_holds]

/-- **One round of `osl_pktfree`.** -/
theorem Inv.pktfreeOne (h : Inv s) (hp : p ∈ s.shadows) (hheld : s.holds p = some sh.real) :
    Inv (pktfreeOne s p sh) := by
  have hp' : p ∈ ((s.unlink p).kfreeSkb sh.real).shadows := mem_unlink.mpr hp
  refine h.give hheld (o := none) (by decide) (pktfreeOne_holds hp) ?_ ?_ ?_
  · rw [SkbPool.pktfreeOne, ownerOf_congr (shadowPut_skbs _ p), ownerOf_kfreeSkb,
      ownerOf_congr unlink_skbs]
  · have hfree : Counted ((s.unlink p).kfreeSkb sh.real) :=
      (h.counted.unlink hp).congr rfl rfl rfl
    exact hfree.shadowPut hp'
  · intro hnotok
    rw [SkbPool.pktfreeOne, shadowPut_eq hp'] at hnotok ⊢
    refine ⟨unlink_notok (s := s) (p := p) ▸ hnotok, fun q hq => ?_⟩
    obtain ⟨hne, hq⟩ := AList.mem_erase.mp hq
    exact ⟨hne, mem_unlink.mp hq⟩

/-- **`netif_rx`.** -/
theorem Inv.netifRx (h : Inv s) (hheld : s.Held p) : Inv (netifRx s p) := by
  obtain ⟨sh, hsh, -, hreal⟩ := hheld.lookup
  have hp := hheld.mem
  have hp' : p ∈ (s.touch p).shadows := by rw [touch_shadows]; exact hp
  obtain ⟨k, hk, -⟩ := Option.map_eq_some_iff.mp (h.owned.driver p _ hreal)
  have hskbs : ((s.touch p).shadowPut p).skbs = s.skbs := by
    rw [shadowPut_skbs, touch_skbs]
  have hlookup : ((s.touch p).shadowPut p).skbs.lookup sh.real = some k := by rw [hskbs, hk]
  simp only [SkbPool.netifRx, hsh]
  refine h.give hreal (o := some .kernel) (by decide) ?_ ?_ ?_ ?_
  · rw [holds_congr (setSkb_shadows _ _ _), shadowPut_holds hp', holds_congr (touch_shadows s p)]
  · rw [ownerOf_setSkb_of_lookup hlookup, ownerOf_congr hskbs]
  · exact ((h.counted.touch hp).shadowPut hp').congr (setSkb_shadows _ _ _) (setSkb_live _ _ _)
      (setSkb_log _ _ _)
  · rw [setSkb_notok, setSkb_shadows, shadowPut_eq hp']
    intro hnotok
    refine ⟨(touch_notok s p).symm.trans hnotok, fun q hq => ?_⟩
    obtain ⟨hne, hq⟩ := AList.mem_erase.mp hq
    rw [touch_shadows] at hq
    exact ⟨hne, hq⟩

/-- **The end of a transmit.** A refused packet is the kernel's again, and nobody holds its
shadow. -/
theorem Inv.xmitReturn (h : Inv s) {ok : Bool} (hheld : ok = false → s.Held p) :
    Inv (xmitReturn s p ok) := by
  cases ok with
  | true => exact h.setShadow p (fun _ => rfl) fun _ => rfl
  | false =>
      have hheld := hheld rfl
      obtain ⟨sh, hsh, -, hreal⟩ := hheld.lookup
      obtain ⟨k, hk, -⟩ := Option.map_eq_some_iff.mp (h.owned.driver p _ hreal)
      have hset : s.setShadow p (fun sh => { sh with sending := false, abandoned := true }) =
          { s with
            shadows := s.shadows.insert p { sh with sending := false, abandoned := true } } :=
        setShadow_eq hsh _
      have hcounted := h.counted.setShadow p fun sh =>
        { sh with sending := false, abandoned := true }
      rw [hset] at hcounted
      simp only [SkbPool.xmitReturn, hsh, Bool.false_eq_true, if_false]
      refine h.give hreal (o := some .kernel) (by decide) ?_ ?_ ?_ ?_
      · rw [holds_congr (setSkb_shadows _ _ _)]
        exact holds_insert s
      · refine (ownerOf_setSkb_of_lookup (k := k) ?_ _).trans rfl
        exact hk
      · exact hcounted.congr (setSkb_shadows _ _ _) (setSkb_live _ _ _) (setSkb_log _ _ _)
      · rw [setSkb_notok]
        intro hnotok
        exact absurd hnotok (Nat.succ_ne_zero _)

theorem pktfreeOne_lookup {q : Ptr} (hp : p ∈ s.shadows) (hq : q ≠ p) :
    (pktfreeOne s p sh).shadows.lookup q = s.shadows.lookup q := by
  have hp' : p ∈ ((s.unlink p).kfreeSkb sh.real).shadows := mem_unlink.mpr hp
  obtain ⟨sh', hsh'⟩ := Option.isSome_iff_exists.mp (AList.lookup_isSome.mpr hp)
  have hsh1 : (s.touch p).shadows.lookup p = some sh' := by rw [touch_shadows, hsh']
  rw [pktfreeOne, shadowPut_eq hp', AList.lookup_erase_ne hq]
  change (s.unlink p).shadows.lookup q = _
  rw [State.unlink, touch_shadows, setShadow_eq hsh1, AList.lookup_insert_ne hq, touch_shadows]

/-- The rest of a chain is not changed by freeing a packet that is not in it. -/
theorem chain_pktfreeOne (sh : SkbShadow) (hp : p ∈ s.shadows) {n : Nat} {q : Ptr}
    (hnot : p ∉ chain n s q) : chain n (pktfreeOne s p sh) q = chain n s q := by
  induction n generalizing q with
  | zero => rfl
  | succ n ih =>
      by_cases hnull : q = 0
      · simp only [chain, hnull, if_true]
      · have hq : q ≠ p := by
          intro heq
          apply hnot
          rw [heq] at hnull ⊢
          simp only [chain, hnull, if_false]
          split <;> simp
        simp only [chain, hnull, if_false, pktfreeOne_lookup hp hq] at hnot ⊢
        split
        · rfl
        · rename_i sh' hsh'
          rw [hsh'] at hnot
          rw [ih (List.not_mem_of_not_mem_cons hnot)]

theorem pktfreeLoop_not_mem {n : Nat} {q : Ptr} (hq : q ∉ s.shadows) :
    q ∉ (pktfreeLoop n s p).shadows := by
  induction n generalizing s p with
  | zero => exact hq
  | succ n ih =>
      simp only [pktfreeLoop]
      split
      · exact hq
      · split
        · rw [touch_shadows]
          exact hq
        · rename_i sh hsh
          have hp : p ∈ s.shadows := AList.lookup_isSome.mp (by rw [hsh]; rfl)
          apply ih
          rw [← AList.lookup_eq_none] at hq ⊢
          rw [pktfreeOne_lookup hp, hq]
          intro heq
          rw [heq, hsh] at hq
          cases hq

/-- **`osl_pktfree` on a chain that the blob holds** keeps the invariant and releases every shadow
of the chain. -/
theorem Inv.pktfreeLoop {n : Nat} (h : Inv s) (hheld : ∀ q ∈ chain n s p, s.Held q)
    (hnodup : (chain n s p).Nodup) :
    Inv (pktfreeLoop n s p) ∧ ∀ q ∈ chain n s p, q ∉ (pktfreeLoop n s p).shadows := by
  induction n generalizing s p with
  | zero => exact ⟨h, (by intros; contradiction)⟩
  | succ n ih =>
      by_cases hnull : p = 0
      · simp only [SkbPool.pktfreeLoop, chain, hnull, if_true]
        exact ⟨h, (by intros; contradiction)⟩
      · have hself : p ∈ chain (n + 1) s p := by
          simp only [chain, hnull, if_false]
          split <;> simp
        have hp := (hheld p hself).mem
        obtain ⟨sh, hsh, -, hreal⟩ := (hheld p hself).lookup
        simp only [SkbPool.pktfreeLoop, chain, hnull, if_false, hsh] at hheld hnodup ⊢
        obtain ⟨hnot, hrest⟩ := List.nodup_cons.mp hnodup
        have hone := h.pktfreeOne hp hreal
        have hchain := chain_pktfreeOne sh hp hnot
        have hheld' : ∀ q ∈ chain n (SkbPool.pktfreeOne s p sh) sh.next,
            (SkbPool.pktfreeOne s p sh).Held q := by
          intro q hq
          rw [hchain] at hq
          have hne : q ≠ p := by
            intro heq
            exact hnot (heq ▸ hq)
          unfold State.Held
          rw [pktfreeOne_holds hp, Function.update_of_ne hne]
          exact hheld q (List.mem_cons_of_mem p hq)
        obtain ⟨hinv, hgone⟩ := ih hone hheld' (by rw [hchain]; exact hrest)
        refine ⟨hinv, ?_⟩
        intro q hq
        rcases List.mem_cons.mp hq with rfl | hq
        · apply pktfreeLoop_not_mem
          have hp' : q ∈ ((s.unlink q).kfreeSkb sh.real).shadows := mem_unlink.mpr hp
          rw [SkbPool.pktfreeOne, shadowPut_eq hp', AList.mem_erase]
          exact fun hmem => hmem.1 rfl
        · apply hgone
          rw [hchain]
          exact hq

theorem Inv.skbClone (h : Inv s) {r' : Ptr} (hr' : r' ∉ s.skbs) : Inv (s.skbClone r r') := by
  unfold State.skbClone
  split
  · rename_i k hk
    have hset := h.setSkb r (f := fun k => { k with cloned := true }) fun _ => rfl
    rw [setSkb_eq hk] at hset
    apply hset.insertSkb _ rfl
    have hne : r' ≠ r := by
      rintro rfl
      exact hr' (AList.lookup_isSome.mp (by rw [hk]; rfl))
    rw [ownerOf_insert, Function.update_of_ne hne, ownerOf_none_of_not_mem hr']
    decide
  · exact h

theorem Inv.allocWrapped (h : Inv s) {real : Option (Ptr × Ptr)} {sh : Option Ptr}
    (hreal : ∀ r ∈ real, s.FreshSkb r.1) (hsh : ∀ p ∈ sh, s.FreshShadow p) :
    Inv (allocWrapped s real sh) := by
  cases real with
  | none => exact h
  | some ra =>
      obtain ⟨r, area⟩ := ra
      have hfresh := hreal _ rfl
      have halloc : Inv (s.allocSkb r area) := by
        apply h.insertSkb _ rfl
        rw [ownerOf_none_of_not_mem hfresh.2]
        decide
      apply halloc.wrapOrFree _ hsh
      rw [State.allocSkb, ownerOf_insert, Function.update_self]

theorem Inv.startXmit (h : Inv s) {call : Xmit} (hC : Allowed s (.startXmit r call)) :
    Inv (startXmit s r call) := by
  have hout : s.ownerOf r = some .kernel → s.ownerOf r ≠ some .driver := by
    intro hk
    rw [hk]
    decide
  cases call with
  | noFn => exact h.kfreeSkb (hout hC)
  | fn area sh =>
      obtain ⟨hkernel, -, hfresh⟩ := hC
      cases hcow : s.skbCowHead r area with
      | none =>
          simp only [SkbPool.startXmit, hcow]
          exact h.kfreeSkb (hout hkernel)
      | some s' =>
          simp only [SkbPool.startXmit, hcow]
          unfold State.skbCowHead at hcow
          split at hcow
          · -- the header was cloned, and the packet gets a data area of its own
            obtain ⟨b, -, rfl⟩ := Option.map_eq_some_iff.mp hcow
            have hset :=
              h.setSkb r (f := fun k => { k with area := b, cloned := false, nohdr := false })
              fun _ => rfl
            refine hset.wrapOrFree ?_ ?_ true
            · rw [ownerOf_setSkb _ (by intro k; rfl), hkernel]
            · intro p hp
              unfold State.FreshShadow
              rw [setSkb_shadows]
              exact hfresh p hp
          · cases hcow
            exact h.wrapOrFree hkernel hfresh true

theorem Inv.pktdup (h : Inv s) {clone sh : Option Ptr} (hC : Allowed s (.pktdup p clone sh)) :
    Inv (pktdup s p clone sh) := by
  obtain ⟨hheld, hclone, hsh⟩ := hC
  obtain ⟨k, hk, -, hreal⟩ := hheld.lookup
  have htouch := h.touch hheld.mem
  cases clone with
  | none =>
      simp only [SkbPool.pktdup, hk]
      exact htouch
  | some r' =>
      simp only [SkbPool.pktdup, hk]
      have hfresh : r' ∉ (s.touch p).skbs := by
        rw [touch_skbs]
        exact (hclone r' rfl).2
      have hlive := h.owned.driver p _ hreal
      obtain ⟨x, hx, -⟩ := Option.map_eq_some_iff.mp hlive
      have hx' : (s.touch p).skbs.lookup k.real = some x := by rw [touch_skbs, hx]
      have hcl : (s.touch p).skbClone k.real r' = { s.touch p with
          skbs := ((s.touch p).skbs.insert k.real { x with cloned := true }).insert r'
            ⟨x.area, true, false, .kernel⟩ } := by
        simp only [State.skbClone, hx']
      have hinv := htouch.skbClone (r := k.real) hfresh
      rw [hcl] at hinv ⊢
      apply hinv.wrapOrFree
      · simp [State.ownerOf]
      · intro q hq
        unfold State.FreshShadow
        rw [touch_shadows]
        exact hsh q hq

/-- **Every step keeps the invariant.** -/
theorem Inv.step (h : Inv s) {e : Event} (hC : Allowed s e) : Inv (step s e) := by
  cases e with
  | stackAlloc r area =>
      apply h.insertSkb _ rfl
      rw [ownerOf_none_of_not_mem hC.1.2]
      decide
  | stackClone r r' => exact h.skbClone hC.2.2
  | stackHeaderRelease r => exact h.setSkb r fun _ => rfl
  | stackFree r =>
      apply h.kfreeSkb
      rw [hC]
      decide
  | startXmit r call => exact h.startXmit hC
  | xmitReturn p ok => exact h.xmitReturn fun hok => (hC hok).1
  | devAllocSkb real sh => exact h.allocWrapped (fun r hr => (hC.1 r hr).1) hC.2
  | pktget real sh => exact h.allocWrapped (fun r hr => (hC.1 r hr).1) hC.2
  | pktdup p clone sh => exact h.pktdup hC
  | pktfree p => exact (h.pktfreeLoop hC.1 hC.2).1
  | netifRx p => exact h.netifRx hC
  | rerouted p =>
      apply (h.touch hC.mem).syncDown
      rw [touch_shadows]
      exact hC.mem
  | unwrap p => exact h.touch hC.mem
  | setNext p q => exact h.setShadow p (fun _ => rfl) fun _ => rfl

end Steps

/-! ## Runs -/

theorem init_inv : Inv init where
  owned := ⟨(by intros; contradiction), (by intros; contradiction), (by intros; contradiction)⟩
  counted := ⟨rfl, trivial, fun _ => ⟨False.elim, (by rintro ⟨⟩)⟩, (by rintro ⟨⟩)⟩
  refused := fun _ => (by intros; contradiction)

theorem run_inv {es : List Event} (hC : Along step Allowed init es) : Inv (run step init es) :=
  run_invariant (I := Inv) (C := Allowed) (fun _ _ h hC => h.step hC) init_inv hC

/-- Who owns what, as it is in every state of the data path. -/
structure Ownership (s : State) : Prop where
  /-- There is at most one live shadow of a packet, apart from those that refused transmits have
  left behind. -/
  unique : ∀ p q sh sh', s.shadows.lookup p = some sh → s.shadows.lookup q = some sh' →
    (sh.abandoned = false ∧ sh'.abandoned = false) ∨ s.notok = 0 → sh.real = sh'.real → p = q
  /-- `wl_skb_live` is the number of live shadows. -/
  live : s.live = s.shadows.keys.length
  /-- The driver owns exactly the packets of the shadows that the blob holds. -/
  driver : ∀ r, s.ownerOf r = some .driver ↔ ∃ p, s.holds p = some r
  /-- A shadow has been released as often as it was allocated, but for a live one, which has been
  released once less. -/
  released : ∀ p, s.log.count (.alloc p) =
    s.log.count (.release p) + if p ∈ s.shadows then 1 else 0
  /-- No shadow has been touched while it was not allocated. -/
  legal : Legal s.log
  /-- A packet that goes up to the stack, or is freed, leaves no shadow. -/
  consumed : ∀ p, (Allowed s (.netifRx p) → p ∉ (step s (.netifRx p)).shadows) ∧
    (Allowed s (.pktfree p) → ∀ q ∈ s.chainOf p, q ∉ (step s (.pktfree p)).shadows)

theorem netifRx_not_mem {s : State} {p : Ptr} (hheld : s.Held p) :
    p ∉ (netifRx s p).shadows := by
  obtain ⟨sh, hsh, -, -⟩ := hheld.lookup
  have hp : p ∈ (s.touch p).shadows := by
    rw [touch_shadows]
    exact hheld.mem
  simp only [netifRx, hsh, setSkb_shadows]
  rw [shadowPut_eq hp, AList.mem_erase]
  exact fun h => h.1 rfl

theorem Inv.ownership {s : State} (h : Inv s) : Ownership s where
  unique := by
    intro p q sh sh' hp hq hheld hreal
    have hholds : ∀ {p sh}, s.shadows.lookup p = some sh → sh.abandoned = false →
        s.holds p = some sh.real := by
      intro p sh hp hab
      simp [State.holds, hp, hab]
    rcases hheld with ⟨hab, hab'⟩ | hnotok
    · exact h.owned.unique p q sh.real (hholds hp hab) (hreal ▸ hholds hq hab')
    · obtain ⟨a, ha, -, hpa⟩ :=
        (h.refused hnotok p (AList.lookup_isSome.mp (by rw [hp]; rfl))).lookup
      obtain ⟨b, hb, -, hqb⟩ :=
        (h.refused hnotok q (AList.lookup_isSome.mp (by rw [hq]; rfl))).lookup
      cases hp.symm.trans ha
      cases hq.symm.trans hb
      exact h.owned.unique p q sh.real hpa (hreal ▸ hqb)
  live := h.counted.live
  driver := fun r => ⟨h.owned.held r, by
    rintro ⟨p, hp⟩
    exact h.owned.driver p r hp⟩
  released := by
    intro p
    rw [h.counted.legal.count_alloc p]
    simp only [h.counted.inUse]
  legal := h.counted.legal
  consumed := fun p => ⟨netifRx_not_mem, fun hC => (h.pktfreeLoop hC.1 hC.2).2⟩

/-- **Ownership of shadows**, over any run of the data path. -/
theorem shadow_ownership (es : List Event) (hC : Along step Allowed init es) :
    Ownership (run step init es) :=
  (run_inv hC).ownership

/-- A packet is sent, one is received, one is duplicated, and a chain of two is freed. -/
theorem shadow_ownership_traffic :
    Ownership (run step init
      [.stackAlloc 1 100, .startXmit 1 (.fn none (some 4096)), .xmitReturn 4096 true,
        .devAllocSkb (some (2, 200)) (some 8192), .rerouted 8192,
        .pktdup 8192 (some 3) (some 12288), .netifRx 8192, .setNext 4096 12288, .pktfree 4096,
        .stackFree 2]) :=
  shadow_ownership _ (by decide)

/-- **A refused packet is wrapped again when the stack retries it.** -/
theorem retry_wraps_again :
    ¬ ∀ es : List Event, Along step Allowed init es →
      ∀ p q sh sh', (run step init es).shadows.lookup p = some sh →
        (run step init es).shadows.lookup q = some sh' → sh.real = sh'.real → p = q := by
  intro h
  have := h [.stackAlloc 1 100, .startXmit 1 (.fn none (some 4096)), .xmitReturn 4096 false,
    .startXmit 1 (.fn none (some 8192))] (by decide) 4096 8192 ⟨1, false, 0, false, true⟩
    ⟨1, false, 0, true, false⟩ (by decide) (by decide) rfl
  exact absurd this (by decide)

end BroadcomWl.Shadow.SkbPool
