import BroadcomWl.Shadow.SkbOwner

/-!
# Sharing and the blob's view of it

`PKTSHARED` in the blob reads the bit `WL236_SKB_CLONED` of the shadow, which `sync_down` copies
from `skb_cloned` of the packet. The kernel's answer is right at any time (`Shown.marked`); the copy
is as old as the last `sync_down` of that shadow.

A data area becomes shared only where a packet is cloned. The new packet's shadow is wrapped
afterwards and gets the bit, and every third packet on the area has been shared before. What is left
is the original: `osl_pktdup` does not refresh its shadow (`duplicate_unseen`).
**`sharing_visible`**: in a run in which only packets with the bit are cloned, the bit is set
wherever it has to be. -/

namespace BroadcomWl.Shadow.SkbPool

open BroadcomWl.Lib

/-- Another live packet has the data area of the packet at `r`. -/
def State.Shared (s : State) (r : Ptr) : Prop :=
  ∃ k, s.skbs.lookup r = some k ∧
    ∃ r' k', r' ≠ r ∧ s.skbs.lookup r' = some k' ∧ k'.area = k.area

/-- Every live shadow of a packet whose data area is shared has the bit. -/
def SharingVisible (s : State) : Prop :=
  ∀ p sh, s.shadows.lookup p = some sh → s.Shared sh.real → sh.clonedBit = true

/-- The live shadows of the packets at `r` and `r'` have the bit. -/
def State.Seen (s : State) (r r' : Ptr) : Prop :=
  ∀ e ∈ s.shadows.entries, e.2.real = r ∨ e.2.real = r' → e.2.clonedBit = true

/-- A step that makes a second packet on a data area makes it of a packet whose live shadows have
the bit. -/
def ClonesSeen (s : State) : Event → Prop
  | .stackClone r r' => s.Seen r r'
  | .pktdup p (some r') (some _) => ∀ sh ∈ s.shadows.lookup p, s.Seen sh.real r'
  | _ => True

instance (s : State) (r r' : Ptr) : Decidable (s.Seen r r') := by
  unfold State.Seen
  infer_instance

instance (s : State) (e : Event) : Decidable (ClonesSeen s e) := by
  apply @Event.casesOn (fun e => Decidable (ClonesSeen s e)) e
  case pktdup =>
    intro p clone sh
    apply @Option.casesOn _ (fun o => Decidable (ClonesSeen s (.pktdup p o sh))) clone
    · exact inferInstanceAs (Decidable True)
    · intro r
      apply @Option.casesOn _ (fun o => Decidable (ClonesSeen s (.pktdup p (some r) o))) sh
      · exact inferInstanceAs (Decidable True)
      · intro q
        dsimp only [ClonesSeen]
        infer_instance
  all_goals
    intros
    dsimp only [ClonesSeen]
    infer_instance

/-! ## The kernel's view -/

/-- The invariant: what is shared is marked as cloned, and has the bit in its shadows. -/
structure Shown (s : State) : Prop where
  marked : ∀ r k, s.skbs.lookup r = some k → s.Shared r → k.cloned = true
  visible : SharingVisible s

section Kernel

variable {s s' : State} {p r : Ptr} {k : SkBuff} {sh : SkbShadow}

theorem shared_congr (h : s'.skbs = s.skbs) (r : Ptr) : s'.Shared r ↔ s.Shared r := by
  unfold State.Shared
  rw [h]

theorem refs_ne_one (hshared : s.Shared r) (hk : s.skbs.lookup r = some k) :
    s.refs k.area ≠ 1 := by
  obtain ⟨k₀, hk₀, r', k', hne, hk', harea⟩ := hshared
  cases hk.symm.trans hk₀
  intro hone
  rw [State.refs, List.countP_eq_length_filter] at hone
  obtain ⟨e, he⟩ := List.length_eq_one_iff.mp hone
  have hmem : ∀ {x y}, s.skbs.lookup x = some y → y.area = k.area →
      (⟨x, y⟩ : Sigma fun _ : Ptr => SkBuff) = e := by
    intro x y hxy hy
    have hin : (⟨x, y⟩ : Sigma fun _ : Ptr => SkBuff) ∈
        s.skbs.entries.filter fun e => e.2.area = k.area := by
      rw [List.mem_filter]
      exact ⟨AList.mem_lookup_iff.mp hxy, by simpa using hy⟩
    rw [he] at hin
    exact List.mem_singleton.mp hin
  have heq := (hmem hk' harea).trans (hmem hk rfl).symm
  exact hne (congrArg Sigma.fst heq)

/-- **`skb_cloned` is true of a shared packet.** -/
theorem skbCloned_of_shared
    (hmarked : ∀ r k, s.skbs.lookup r = some k → s.Shared r → k.cloned = true)
    (hshared : s.Shared r) : s.skbCloned r = true := by
  obtain ⟨k, hk, -⟩ := id hshared
  simp [State.skbCloned, hk, hmarked r k hk hshared, refs_ne_one hshared hk]

theorem Shown.mono (h : Shown s) (hsh : s'.shadows = s.shadows)
    (hless : ∀ r, s'.Shared r → s.Shared r)
    (hcloned : ∀ r k', s'.skbs.lookup r = some k' → s'.Shared r →
      ∃ k, s.skbs.lookup r = some k ∧ (k.cloned = true → k'.cloned = true)) : Shown s' where
  marked := by
    intro r k' hk' hshared
    obtain ⟨k, hk, hkeep⟩ := hcloned r k' hk' hshared
    exact hkeep (h.marked r k hk (hless r hshared))
  visible := by
    intro p sh hp hshared
    rw [hsh] at hp
    exact h.visible p sh hp (hless _ hshared)

theorem Shown.ownArea (h : Shown s) {area : Ptr} (hfresh : s.FreshArea area)
    (hk : k.area = area) : Shown { s with skbs := s.skbs.insert r k } := by
  have hother : ∀ {x y}, s.skbs.lookup x = some y → y.area ≠ area := fun hx =>
    hfresh _ (AList.mem_lookup_iff.mp hx)
  have hcases : ∀ {x y}, (s.skbs.insert r k).lookup x = some y →
      (x = r ∧ y.area = area) ∨ (x ≠ r ∧ s.skbs.lookup x = some y) := by
    intro x y hx
    by_cases hxr : x = r
    · rw [hxr, AList.lookup_insert] at hx
      cases hx
      exact .inl ⟨hxr, hk⟩
    · rw [AList.lookup_insert_ne hxr] at hx
      exact .inr ⟨hxr, hx⟩
  have hless : ∀ x, ({ s with skbs := s.skbs.insert r k } : State).Shared x →
      x ≠ r ∧ s.Shared x := by
    rintro x ⟨y, hy, x', y', hne, hy', harea⟩
    rcases hcases hy with ⟨hxr, hya⟩ | ⟨hxr, hy⟩
    · rcases hcases hy' with ⟨hxr', -⟩ | ⟨-, hy'⟩
      · exact absurd (hxr'.trans hxr.symm) hne
      · exact absurd (harea.trans hya) (hother hy')
    · rcases hcases hy' with ⟨-, hya'⟩ | ⟨-, hy'⟩
      · exact absurd (harea.symm.trans hya') (hother hy)
      · exact ⟨hxr, y, hy, x', y', hne, hy', harea⟩
  refine h.mono rfl ?_ ?_
  · intro x hx
    exact (hless x hx).2
  · intro x y hy hx
    rcases hcases hy with ⟨hxr, -⟩ | ⟨-, hy⟩
    · exact absurd hxr (hless x hx).1
    · exact ⟨y, hy, id⟩

theorem Shown.of_areas (h : Shown s) (hsh : s'.shadows = s.shadows)
    (hcases : ∀ {x y}, s'.skbs.lookup x = some y →
      ∃ z, s.skbs.lookup x = some z ∧ y.area = z.area ∧ (z.cloned = true → y.cloned = true)) :
    Shown s' := by
  refine h.mono hsh ?_ ?_
  · rintro x ⟨y, hy, x', y', hne, hy', hyy⟩
    obtain ⟨z, hz, hyz, -⟩ := hcases hy
    obtain ⟨z', hz', hyz', -⟩ := hcases hy'
    exact ⟨z, hz, x', z', hne, hz', by rw [← hyz', hyy, hyz]⟩
  · intro x y hy _
    obtain ⟨z, hz, -, hkeep⟩ := hcases hy
    exact ⟨z, hz, hkeep⟩

theorem Shown.kfreeSkb (h : Shown s) (r : Ptr) : Shown (s.kfreeSkb r) := by
  refine h.of_areas rfl ?_
  intro x y hx
  by_cases hxr : x = r
  · rw [hxr, State.kfreeSkb, AList.lookup_erase] at hx
    cases hx
  · rw [State.kfreeSkb, AList.lookup_erase_ne hxr] at hx
    exact ⟨y, hx, rfl, id⟩

theorem Shown.setSkb (h : Shown s) (r : Ptr) (f : SkBuff → SkBuff)
    (harea : ∀ k, (f k).area = k.area) (hcloned : ∀ k, k.cloned = true → (f k).cloned = true) :
    Shown (s.setSkb r f) := by
  unfold State.setSkb
  split
  · rename_i k hk
    have hcases : ∀ {x y}, (s.skbs.insert r (f k)).lookup x = some y →
        ∃ z, s.skbs.lookup x = some z ∧ y.area = z.area ∧ (z.cloned = true → y.cloned = true) := by
      intro x y hx
      by_cases hxr : x = r
      · rw [hxr, AList.lookup_insert] at hx
        cases hx
        exact ⟨k, hxr ▸ hk, harea k, hcloned k⟩
      · rw [AList.lookup_insert_ne hxr] at hx
        exact ⟨y, hx, rfl, id⟩
    exact h.of_areas rfl hcases
  · exact h

theorem skbClone_lookup (hk : s.skbs.lookup r = some k) {r' x : Ptr} {y : SkBuff}
    (hy : (s.skbClone r r').skbs.lookup x = some y) :
    (x = r' ∧ y = ⟨k.area, true, false, .kernel⟩) ∨ (x = r ∧ y = { k with cloned := true }) ∨
      (x ≠ r ∧ x ≠ r' ∧ s.skbs.lookup x = some y) := by
  simp only [State.skbClone, hk] at hy
  by_cases hxr' : x = r'
  · rw [hxr', AList.lookup_insert] at hy
    cases hy
    exact .inl ⟨hxr', rfl⟩
  · rw [AList.lookup_insert_ne hxr'] at hy
    by_cases hxr : x = r
    · rw [hxr, AList.lookup_insert] at hy
      cases hy
      exact .inr (.inl ⟨hxr, rfl⟩)
    · rw [AList.lookup_insert_ne hxr] at hy
      exact .inr (.inr ⟨hxr, hxr', hy⟩)

/-- A clone makes only the original and the copy shared that were not. A third packet on the data
area has shared it with the original. -/
theorem skbClone_shared (hk : s.skbs.lookup r = some k) {r' x : Ptr}
    (hx : (s.skbClone r r').Shared x) : x = r ∨ x = r' ∨ s.Shared x := by
  obtain ⟨y, hy, x', y', hne, hy', harea⟩ := hx
  rcases skbClone_lookup hk hy with ⟨hxr', -⟩ | ⟨hxr, -⟩ | ⟨hxr, -, hy⟩
  · exact .inr (.inl hxr')
  · exact .inl hxr
  · refine .inr (.inr ⟨y, hy, ?_⟩)
    rcases skbClone_lookup hk hy' with ⟨-, rfl⟩ | ⟨-, rfl⟩ | ⟨-, -, hy'⟩
    · exact ⟨r, k, Ne.symm hxr, hk, harea⟩
    · exact ⟨r, k, Ne.symm hxr, hk, harea⟩
    · exact ⟨x', y', hne, hy', harea⟩

theorem skbClone_shadows (r r' : Ptr) : (s.skbClone r r').shadows = s.shadows := by
  unfold State.skbClone
  split <;> rfl

/-- **Cloning a packet whose shadows have the bit.** -/
theorem Shown.skbClone (h : Shown s) {r' : Ptr} (hseen : s.Seen r r') :
    Shown (s.skbClone r r') := by
  cases hk : s.skbs.lookup r with
  | none =>
      have hsame : s.skbClone r r' = s := by simp only [State.skbClone, hk]
      rw [hsame]
      exact h
  | some k =>
      constructor
      · intro x y hy hshared
        rcases skbClone_lookup hk hy with ⟨-, rfl⟩ | ⟨-, rfl⟩ | ⟨hxr, hxr', hy⟩
        · rfl
        · rfl
        · rcases skbClone_shared hk hshared with hx | hx | hx
          · exact absurd hx hxr
          · exact absurd hx hxr'
          · exact h.marked x y hy hx
      · intro p sh hp hshared
        rw [skbClone_shadows] at hp
        have hentry := AList.mem_lookup_iff.mp hp
        rcases skbClone_shared hk hshared with hx | hx | hx
        · exact hseen _ hentry (.inl hx)
        · exact hseen _ hentry (.inr hx)
        · exact h.visible p sh hp hx

theorem Shown.skbClone_kfreeSkb (h : Shown s) (r r' : Ptr) :
    Shown ((s.skbClone r r').kfreeSkb r') := by
  cases hk : s.skbs.lookup r with
  | none =>
      have hsame : s.skbClone r r' = s := by simp only [State.skbClone, hk]
      rw [hsame]
      exact h.kfreeSkb r'
  | some k =>
      have hcases : ∀ {x y}, ((s.skbClone r r').kfreeSkb r').skbs.lookup x = some y →
          ∃ z, s.skbs.lookup x = some z ∧ y.area = z.area ∧
              (z.cloned = true → y.cloned = true) := by
        intro x y hy
        by_cases hxr' : x = r'
        · rw [hxr', State.kfreeSkb, AList.lookup_erase] at hy
          cases hy
        · rw [State.kfreeSkb, AList.lookup_erase_ne hxr'] at hy
          rcases skbClone_lookup hk hy with ⟨hx, -⟩ | ⟨hx, rfl⟩ | ⟨-, -, hy⟩
          · exact absurd hx hxr'
          · exact ⟨k, hx ▸ hk, rfl, fun _ => rfl⟩
          · exact ⟨y, hy, rfl, id⟩
      exact h.of_areas (skbClone_shadows r r') hcases

end Kernel

/-! ## The shadows -/

section Shadows

variable {s s' : State} {p r : Ptr} {k : SkBuff} {sh : SkbShadow}

theorem Shown.shadows (h : Shown s) (hskbs : s'.skbs = s.skbs)
    (hsh : ∀ p sh, s'.shadows.lookup p = some sh →
      s.Shared sh.real → sh.clonedBit = true) : Shown s' where
  marked := by
    intro r k hk hshared
    rw [hskbs] at hk
    exact h.marked r k hk ((shared_congr hskbs r).mp hshared)
  visible := fun p sh hp hshared => hsh p sh hp ((shared_congr hskbs sh.real).mp hshared)

theorem Shown.touch (h : Shown s) (p : Ptr) : Shown (s.touch p) :=
  h.shadows (touch_skbs s p) (by rw [touch_shadows]; exact h.visible)

theorem Shown.setShadow (h : Shown s) (p : Ptr) (f : SkbShadow → SkbShadow)
    (hreal : ∀ sh, (f sh).real = sh.real) (hbit : ∀ sh, (f sh).clonedBit = sh.clonedBit) :
    Shown (s.setShadow p f) := by
  unfold State.setShadow
  split
  · rename_i sh hsh
    refine h.shadows rfl ?_
    intro q sh' hq hshared
    by_cases hqp : q = p
    · rw [hqp, AList.lookup_insert] at hq
      cases hq
      rw [hreal] at hshared
      rw [hbit]
      exact h.visible p sh hsh hshared
    · rw [AList.lookup_insert_ne hqp] at hq
      exact h.visible q sh' hq hshared
  · exact h

theorem Shown.shadowPut (h : Shown s) (p : Ptr) : Shown (s.shadowPut p) := by
  unfold State.shadowPut
  split
  · exact h.touch p
  · refine h.shadows rfl ?_
    intro q sh' hq hshared
    by_cases hqp : q = p
    · rw [hqp, AList.lookup_erase] at hq
      cases hq
    · rw [AList.lookup_erase_ne hqp] at hq
      exact h.visible q sh' hq hshared

/-- **`sync_down` shows the blob what `skb_cloned` says.** The shadow that it refreshes need not
have been right before. -/
theorem shown_syncDown (hmarked : ∀ r k, s.skbs.lookup r = some k → s.Shared r → k.cloned = true)
    (hothers : ∀ q sh, q ≠ p → s.shadows.lookup q = some sh → s.Shared sh.real →
      sh.clonedBit = true) : Shown (s.syncDown p) := by
  have hskbs : (s.syncDown p).skbs = s.skbs := syncDown_skbs
  constructor
  · intro r k hk hshared
    rw [hskbs] at hk
    exact hmarked r k hk ((shared_congr hskbs r).mp hshared)
  · intro q sh hq hshared
    rw [shared_congr hskbs] at hshared
    simp only [State.syncDown, State.setShadow, touch_shadows] at hq
    split at hq
    · rename_i sh₀ hsh₀
      by_cases hqp : q = p
      · rw [hqp, AList.lookup_insert] at hq
        cases hq
        exact skbCloned_of_shared hmarked hshared
      · rw [AList.lookup_insert_ne hqp] at hq
        exact hothers q sh hqp (touch_shadows s p ▸ hq) hshared
    · rename_i hnone
      rw [touch_shadows] at hq
      refine hothers q sh ?_ hq hshared
      rintro rfl
      rw [hnone] at hq
      cases hq

theorem Shown.syncDown (h : Shown s) (p : Ptr) : Shown (s.syncDown p) :=
  shown_syncDown h.marked fun q sh _ hq hshared => h.visible q sh hq hshared

/-- **A new shadow shows whether its packet is shared.** -/
theorem Shown.wrapOrFree (h : Shown s) (r : Ptr) (sh : Option Ptr) (sending : Bool) :
    Shown (s.wrapOrFree r sh sending) := by
  cases sh with
  | none => exact h.kfreeSkb r
  | some p =>
      have hwrap : Shown (s.wrap r p sending) := by
        refine shown_syncDown h.marked ?_
        intro q sh hqp hq hshared
        rw [AList.lookup_insert_ne hqp] at hq
        exact h.visible q sh hq hshared
      exact hwrap.setSkb r _ (fun _ => rfl) fun _ h => h

theorem Shown.pktfreeLoop (h : Shown s) (n : Nat) (p : Ptr) : Shown (pktfreeLoop n s p) := by
  induction n generalizing s p with
  | zero => exact h
  | succ n ih =>
      simp only [SkbPool.pktfreeLoop]
      split
      · exact h
      · split
        · exact h.touch p
        · rename_i sh hsh
          apply ih
          have hunlink : Shown (s.unlink p) :=
            ((h.touch p).setShadow p (fun sh => { sh with next := 0 }) (fun _ => rfl)
              fun _ => rfl).touch p
          exact (hunlink.kfreeSkb sh.real).shadowPut p

theorem Shown.startXmit (h : Shown s) {call : Xmit} (hC : Allowed s (.startXmit r call)) :
    Shown (startXmit s r call) := by
  cases call with
  | noFn => exact h.kfreeSkb r
  | fn area sh =>
      obtain ⟨hkernel, harea, -⟩ := hC
      obtain ⟨k, hk, -⟩ := Option.map_eq_some_iff.mp hkernel
      simp only [SkbPool.startXmit, State.skbCowHead, setSkb_eq hk]
      by_cases hcloned : s.skbHeaderCloned r = true
      · rw [if_pos hcloned]
        cases area with
        | none => exact h.kfreeSkb r
        | some b => exact (h.ownArea (harea b rfl) rfl).wrapOrFree r sh true
      · rw [if_neg hcloned]
        exact h.wrapOrFree r sh true

theorem Shown.allocWrapped (h : Shown s) {real : Option (Ptr × Ptr)} (sh : Option Ptr)
    (hreal : ∀ r ∈ real, s.FreshArea r.2) : Shown (allocWrapped s real sh) := by
  cases real with
  | none => exact h
  | some ra => exact (h.ownArea (hreal ra rfl) rfl).wrapOrFree ra.1 sh false

theorem Shown.pktdup (h : Shown s) {clone sh : Option Ptr}
    (hseen : ClonesSeen s (.pktdup p clone sh)) : Shown (pktdup s p clone sh) := by
  have htouch := h.touch p
  cases hk : s.shadows.lookup p with
  | none =>
      simp only [SkbPool.pktdup, hk]
      exact htouch
  | some k =>
      cases clone with
      | none =>
          simp only [SkbPool.pktdup, hk]
          exact htouch
      | some r' =>
          simp only [SkbPool.pktdup, hk]
          cases sh with
          | none => exact htouch.skbClone_kfreeSkb k.real r'
          | some p' =>
              have hseen' : (s.touch p).Seen k.real r' := by
                unfold State.Seen
                rw [touch_shadows]
                exact hseen k hk
              exact (htouch.skbClone hseen').wrapOrFree r' (some p') false

/-- **Every step keeps the invariant.** -/
theorem Shown.step (h : Shown s) {e : Event} (hC : Allowed s e) (hseen : ClonesSeen s e) :
    Shown (step s e) := by
  cases e with
  | stackAlloc r area => exact h.ownArea hC.2 rfl
  | stackClone r r' => exact h.skbClone hseen
  | stackHeaderRelease r => exact h.setSkb r _ (fun _ => rfl) fun _ h => h
  | stackFree r => exact h.kfreeSkb r
  | startXmit r call => exact h.startXmit hC
  | xmitReturn p ok =>
      cases ok with
      | true => exact h.setShadow p _ (fun _ => rfl) fun _ => rfl
      | false =>
          obtain ⟨sh, hsh, -, -⟩ := (hC rfl).1.lookup
          have hset := h.setShadow p (fun sh => { sh with sending := false, abandoned := true })
            (fun _ => rfl) fun _ => rfl
          rw [setShadow_eq hsh] at hset
          simp only [SkbPool.step, SkbPool.xmitReturn, hsh, Bool.false_eq_true, if_false]
          refine Shown.setSkb ?_ sh.real _ (fun _ => rfl) fun _ h => h
          exact ⟨hset.marked, hset.visible⟩
  | devAllocSkb real sh => exact h.allocWrapped sh fun r hr => (hC.1 r hr).2
  | pktget real sh => exact h.allocWrapped sh fun r hr => (hC.1 r hr).2
  | pktdup p clone sh => exact h.pktdup hseen
  | pktfree p => exact h.pktfreeLoop _ p
  | netifRx p =>
      obtain ⟨sh, hsh, -, -⟩ := State.Held.lookup hC
      simp only [SkbPool.step, SkbPool.netifRx, hsh]
      exact ((h.touch p).shadowPut p).setSkb sh.real _ (fun _ => rfl) fun _ h => h
  | rerouted p => exact (h.touch p).syncDown p
  | unwrap p => exact h.touch p
  | setNext p q => exact h.setShadow p _ (fun _ => rfl) fun _ => rfl

end Shadows

/-! ## Runs -/

theorem init_shown : Shown init := ⟨(by rintro _ _ ⟨⟩), (by rintro _ _ ⟨⟩)⟩

/-- **Sharing is visible** in every run in which only packets with the bit are cloned. -/
theorem sharing_visible (es : List Event)
    (hC : Along step (fun s e => Allowed s e ∧ ClonesSeen s e) init es) :
    SharingVisible (run step init es) :=
  (run_invariant (I := Shown) (fun _ _ h hC => h.step hC.1 hC.2) init_shown hC).visible

/-- A segment that the stack keeps for a retransmission is sent, and duplicated in the driver. The
three packets share their data area. -/
theorem sharing_visible_segment :
    SharingVisible (run step init
      [.stackAlloc 1 100, .stackHeaderRelease 1, .stackClone 1 2,
        .startXmit 2 (.fn none (some 4096)), .rerouted 4096, .pktdup 4096 (some 3) (some 8192)]) :=
  sharing_visible _ (by decide)

/-- **The original of a duplicate does not show that it is shared.** -/
theorem duplicate_unseen :
    ¬ ∀ es : List Event, Along step Allowed init es → SharingVisible (run step init es) := by
  intro h
  have hvis := h [.devAllocSkb (some (1, 100)) (some 4096), .pktdup 4096 (some 2) (some 8192)]
    (by decide) 4096 ⟨1, false, 0, false, false⟩ (by decide)
  have hshared : (run step init [.devAllocSkb (some (1, 100)) (some 4096),
      .pktdup 4096 (some 2) (some 8192)]).Shared 1 :=
    ⟨⟨100, true, false, .driver⟩, by decide, 2, ⟨100, true, false, .driver⟩, by decide, by
      decide, rfl⟩
  exact absurd (hvis hshared) (by decide)

end BroadcomWl.Shadow.SkbPool
