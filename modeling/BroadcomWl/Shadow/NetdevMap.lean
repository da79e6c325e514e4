import BroadcomWl.Shadow.Netdev

/-!
# The device map is a partial bijection

A packet's device crosses the boundary in both directions, so the two lookups have to be inverse
to each other on the shadows that exist and have to answer NULL for every other address, also for
one that was a shadow and has been freed.

The abstract side is the partial function `live` from shadows to devices: an allocation that
succeeds adds a pair, freeing a shadow and leaving the module remove pairs, and nothing else
matters. **`device_map_bijection`**: after any sequence of calls the two lookups are a partial
equivalence, and it is `live`.
-/

namespace BroadcomWl.Shadow.Netdev

open BroadcomWl.Lib

/-! ## The abstract map -/

/-- The device of each live shadow. -/
abbrev Live := Ptr → Option Ptr

def liveStep (live : Live) : Event → Live
  | .allocNetdevMq (some p) (some r) => Function.update live p (some r)
  | .freeNetdev p => Function.update live p none
  | .exit => fun _ => none
  | _ => live

/-! ## The invariant -/

/-- The list holds each shadow and each device once, and the shadows are the addresses at which
the magic number is found. -/
structure MapInv (s : State) : Prop where
  ptr_inj : (s.shadows.map NetdevShadow.ptr).Nodup
  real_inj : (s.shadows.map NetdevShadow.real).Nodup
  ne_null : ∀ x ∈ s.shadows, x.ptr ≠ 0 ∧ x.real ≠ 0
  magic : ∀ p, s.magic p = shadowMagic ↔ ∃ x ∈ s.shadows, x.ptr = p

section Lookups

variable {s : State} {p r : Ptr} {x : NetdevShadow}

theorem find_of_nodup {f : NetdevShadow → Ptr} {l : List NetdevShadow} (h : (l.map f).Nodup)
    (hx : x ∈ l) : l.find? (fun y => f y = f x) = some x := by
  induction l with
  | nil => cases hx
  | cons y l ih =>
      obtain ⟨hy, hl⟩ := List.nodup_cons.mp h
      rcases List.mem_cons.mp hx with rfl | hx
      · simp
      · have hne : f y ≠ f x := fun heq => hy (heq ▸ List.mem_map_of_mem hx)
        rw [List.find?_cons_of_neg (by simpa using hne)]
        exact ih hl hx

theorem MapInv.realOf_eq_some (h : MapInv s) : s.realOf p = some r ↔ ⟨p, r⟩ ∈ s.shadows := by
  unfold State.realOf
  constructor
  · intro heq
    split at heq
    · cases heq
    · obtain ⟨x, hx, rfl⟩ := Option.map_eq_some_iff.mp heq
      have hp : x.ptr = p := by simpa using List.find?_some hx
      rw [← hp]
      exact List.mem_of_find?_eq_some hx
  · intro hx
    rw [if_neg (h.ne_null _ hx).1, find_of_nodup (f := NetdevShadow.ptr) h.ptr_inj hx]
    rfl

theorem MapInv.blobOf_eq_some (h : MapInv s) : s.blobOf r = some p ↔ ⟨p, r⟩ ∈ s.shadows := by
  unfold State.blobOf
  constructor
  · intro heq
    split at heq
    · cases heq
    · obtain ⟨x, hx, rfl⟩ := Option.map_eq_some_iff.mp heq
      have hr : x.real = r := by simpa using List.find?_some hx
      rw [← hr]
      exact List.mem_of_find?_eq_some hx
  · intro hx
    rw [if_neg (h.ne_null _ hx).2, find_of_nodup (f := NetdevShadow.real) h.real_inj hx]
    rfl

end Lookups

/-! ## Each step keeps the invariant and follows the abstract map -/

/-- The list is the abstract map. -/
structure Refines (s : State) (live : Live) : Prop where
  inv : MapInv s
  live : ∀ p r, ⟨p, r⟩ ∈ s.shadows ↔ live p = some r

section Steps

variable {s s' : State} {live : Live}

theorem Refines.frame (h : Refines s live) (hs : s'.shadows = s.shadows)
    (hm : s'.magic = s.magic) : Refines s' live where
  inv := by
    constructor
    · rw [hs]; exact h.inv.ptr_inj
    · rw [hs]; exact h.inv.real_inj
    · rw [hs]; exact h.inv.ne_null
    · rw [hs, hm]; exact h.inv.magic
  live := by rw [hs]; exact h.live

theorem allocNetdevMq_refines (h : Refines s live) {sh real : Option Ptr}
    (hfresh : Fresh s (.allocNetdevMq sh real)) :
    Refines (allocNetdevMq s sh real) (liveStep live (.allocNetdevMq sh real)) := by
  cases sh with
  | none => exact h
  | some p =>
      obtain ⟨hp0, hp⟩ := hfresh.1 p rfl
      cases real with
      | none =>
          refine ⟨⟨h.inv.ptr_inj, h.inv.real_inj, h.inv.ne_null, fun p' => ?_⟩, h.live⟩
          by_cases heq : p' = p
          · subst heq
            have hnot : ¬ ∃ x ∈ s.shadows, x.ptr = p' := by
              rintro ⟨x, hx, hxp⟩
              exact hp x hx hxp
            simp only [allocNetdevMq, Function.update_self]
            exact iff_of_false (by decide) hnot
          · simp only [allocNetdevMq, Function.update_of_ne heq]
            exact h.inv.magic p'
      | some r =>
          obtain ⟨hr0, hr⟩ := hfresh.2 r rfl
          refine ⟨⟨?_, ?_, ?_, fun p' => ?_⟩, fun p' r' => ?_⟩
          · refine List.nodup_cons.mpr ⟨fun hmem => ?_, h.inv.ptr_inj⟩
            obtain ⟨x, hx, hxp⟩ := List.mem_map.mp hmem
            exact hp x hx hxp
          · refine List.nodup_cons.mpr ⟨fun hmem => ?_, h.inv.real_inj⟩
            obtain ⟨x, hx, hxr⟩ := List.mem_map.mp hmem
            exact hr x hx hxr
          · intro x hx
            rcases List.mem_cons.mp hx with rfl | hx
            · exact ⟨hp0, hr0⟩
            · exact h.inv.ne_null x hx
          · simp only [allocNetdevMq, List.exists_mem_cons_iff]
            by_cases heq : p' = p
            · subst heq
              simp
            · rw [Function.update_of_ne heq, h.inv.magic p']
              exact (or_iff_right (fun hpp => heq hpp.symm)).symm
          · simp only [allocNetdevMq, liveStep, List.mem_cons, NetdevShadow.mk.injEq]
            by_cases heq : p' = p
            · subst heq
              have hnot : ⟨p', r'⟩ ∉ s.shadows := fun hx => hp _ hx rfl
              simp [hnot, eq_comm]
            · rw [Function.update_of_ne heq, ← h.live p' r']
              simp [heq]

theorem freeNetdev_refines (h : Refines s live) {p : Ptr} :
    Refines (freeNetdev s p) (liveStep live (.freeNetdev p)) := by
  unfold freeNetdev
  split
  · refine ⟨⟨?_, ?_, ?_, fun p' => ?_⟩, fun p' r' => ?_⟩
    · exact h.inv.ptr_inj.sublist ((List.filter_sublist).map _)
    · exact h.inv.real_inj.sublist ((List.filter_sublist).map _)
    · intro x hx
      exact h.inv.ne_null x (List.mem_of_mem_filter hx)
    · simp only [List.mem_filter]
      by_cases heq : p' = p
      · subst heq
        rw [Function.update_self]
        refine iff_of_false (by decide) ?_
        rintro ⟨x, ⟨_, hne⟩, hxp⟩
        simp [hxp] at hne
      · rw [Function.update_of_ne heq, h.inv.magic p']
        constructor
        · rintro ⟨x, hx, rfl⟩
          exact ⟨x, ⟨hx, by simpa using heq⟩, rfl⟩
        · rintro ⟨x, ⟨hx, _⟩, hxp⟩
          exact ⟨x, hx, hxp⟩
    · simp only [liveStep, List.mem_filter]
      by_cases heq : p' = p
      · subst heq
        simp
      · rw [Function.update_of_ne heq, ← h.live p' r']
        simp [heq]
  · rename_i hno
    refine ⟨h.inv, fun p' r' => ?_⟩
    simp only [liveStep]
    by_cases heq : p' = p
    · subst heq
      rw [Function.update_self]
      refine iff_of_false (fun hx => hno ?_) (by rintro ⟨⟩)
      have hmagic := (h.inv.magic p').mpr ⟨_, hx, rfl⟩
      simp [State.toShadow, hmagic, (h.inv.ne_null _ hx).1]
    · rw [Function.update_of_ne heq]
      exact h.live p' r'

theorem netdevExit_refines (h : Refines s live) :
    Refines (netdevExit s) (liveStep live .exit) := by
  refine ⟨⟨List.nodup_nil, List.nodup_nil, (by intros; contradiction), fun p => ?_⟩, fun p r => ?_⟩
  · refine iff_of_false ?_ (by rintro ⟨_, ⟨⟩, _⟩)
    simp only [netdevExit]
    split
    · decide
    · rename_i hno
      intro hmagic
      obtain ⟨x, hx, rfl⟩ := (h.inv.magic p).mp hmagic
      refine hno ?_
      simp [State.deviceOf, find_of_nodup (f := NetdevShadow.ptr) h.inv.ptr_inj hx]
  · exact iff_of_false (by rintro ⟨⟩) (by rintro ⟨⟩)

theorem registerNetdev_frame (p : Ptr) (ok : Bool) :
    (registerNetdev s p ok).shadows = s.shadows ∧ (registerNetdev s p ok).magic = s.magic := by
  unfold registerNetdev
  split
  · split
    · split <;> exact ⟨rfl, rfl⟩
    · exact ⟨rfl, rfl⟩
  · exact ⟨rfl, rfl⟩

theorem unregisterNetdev_frame (p : Ptr) :
    (unregisterNetdev s p).shadows = s.shadows ∧ (unregisterNetdev s p).magic = s.magic := by
  unfold unregisterNetdev
  split
  · split <;> exact ⟨rfl, rfl⟩
  · exact ⟨rfl, rfl⟩

theorem bitLe_frame (op : BitOp) (nr : Nat) (p : Ptr) :
    (bitLe s op nr p).shadows = s.shadows ∧ (bitLe s op nr p).magic = s.magic := by
  simp only [bitLe, txqBitop]
  cases s.shadows.find? fun sh => p = sh.txqState with
  | none => exact ⟨rfl, rfl⟩
  | some found =>
      by_cases hnr : nr = 0 <;> by_cases hop : op = .testAndClear <;>
        by_cases hb : testBit s.words nr p = true <;> simp_all

theorem step_refines (h : Refines s live) (e : Event) (hfresh : Fresh s e) :
    Refines (step s e) (liveStep live e) := by
  cases e with
  | allocNetdevMq sh real => exact allocNetdevMq_refines h hfresh
  | registerNetdev p ok =>
      obtain ⟨hs, hm⟩ := registerNetdev_frame (s := s) p ok
      exact h.frame hs hm
  | unregisterNetdev p =>
      obtain ⟨hs, hm⟩ := unregisterNetdev_frame (s := s) p
      exact h.frame hs hm
  | freeNetdev p => exact freeNetdev_refines h
  | exit => exact netdevExit_refines h
  | bit op nr p =>
      obtain ⟨hs, hm⟩ := bitLe_frame (s := s) op nr p
      exact h.frame hs hm

theorem MapInv.refines (h : MapInv s) : Refines s s.realOf :=
  ⟨h, fun _ _ => h.realOf_eq_some.symm⟩

theorem step_mapInv (h : MapInv s) (e : Event) (hfresh : Fresh s e) : MapInv (step s e) :=
  (step_refines h.refines e hfresh).inv

end Steps

/-! ## Runs -/

theorem init_refines {foreign : Ptr → Nat} (hforeign : ∀ p, foreign p ≠ shadowMagic)
    (words : Ptr → BitVec 32) : Refines (init foreign words) fun _ => none where
  inv := by
    refine ⟨List.nodup_nil, List.nodup_nil, (by intros; contradiction), fun p => ?_⟩
    exact iff_of_false (hforeign p) (by rintro ⟨_, ⟨⟩, _⟩)
  live := fun _ _ => iff_of_false (by rintro ⟨⟩) (by rintro ⟨⟩)

theorem run_refines {s : State} {live : Live} {es : List Event} (h : Refines s live)
    (hfresh : Along step Fresh s es) : Refines (run step s es) (run liveStep live es) := by
  induction es generalizing s live with
  | nil => exact h
  | cons e es ih => exact ih (step_refines h e hfresh.1) hfresh.2

/-- The two lookups as one partial equivalence. -/
def deviceMap (s : State) (h : MapInv s) : Ptr ≃. Ptr where
  toFun := s.realOf
  invFun := s.blobOf
  inv := fun p r => by
    rw [h.blobOf_eq_some, h.realOf_eq_some]

theorem alloc_failure_frame (s : State) {sh real : Option Ptr} (hfail : sh = none ∨ real = none) :
    (step s (.allocNetdevMq sh real)).realOf = s.realOf ∧
      (step s (.allocNetdevMq sh real)).blobOf = s.blobOf := by
  rcases hfail with rfl | rfl
  · exact ⟨rfl, rfl⟩
  · cases sh with
    | none => exact ⟨rfl, rfl⟩
    | some p => exact ⟨rfl, rfl⟩

/-- **The device map is a partial bijection**, over any sequence of calls: the lookups are inverse
to each other, they answer NULL for every address that is not a live shadow or the device of one,
and an allocation that fails changes nothing. -/
theorem device_map_bijection (foreign : Ptr → Nat) (words : Ptr → BitVec 32)
    (hforeign : ∀ p, foreign p ≠ shadowMagic) (es : List Event)
    (hfresh : Along step Fresh (init foreign words) es) :
    ∃ e : Ptr ≃. Ptr,
      (∀ p, (run step (init foreign words) es).realOf p = e p) ∧
      (∀ r, (run step (init foreign words) es).blobOf r = e.symm r) ∧
      (∀ p, e p = run liveStep (fun _ => none) es p) ∧
      ∀ sh real, sh = none ∨ real = none →
        (step (run step (init foreign words) es) (.allocNetdevMq sh real)).realOf =
            (run step (init foreign words) es).realOf ∧
          (step (run step (init foreign words) es) (.allocNetdevMq sh real)).blobOf =
            (run step (init foreign words) es).blobOf := by
  have h := run_refines (init_refines hforeign words) hfresh
  refine ⟨deviceMap _ h.inv, fun _ => rfl, fun _ => rfl, fun p => ?_,
    fun sh real hfail => alloc_failure_frame _ hfail⟩
  apply Option.ext
  intro r
  rw [← h.live p r]
  exact h.inv.realOf_eq_some

/-- Two interfaces come, one goes, and its addresses are used again. -/
theorem device_map_bijection_reuse :
    ∃ e : Ptr ≃. Ptr, e 8192 = some 500 ∧ e.symm 500 = some 8192 ∧ e 4096 = some 700 ∧
      e.symm 600 = none := by
  obtain ⟨e, hreal, hblob, -, -⟩ := device_map_bijection (fun _ => 0) (fun _ => 0)
    (fun _ => by decide)
    [.allocNetdevMq (some 4096) (some 600), .allocNetdevMq (some 8192) (some 500),
      .registerNetdev 4096 true, .unregisterNetdev 4096, .freeNetdev 4096, .freeNetdev 4096,
      .allocNetdevMq (some 4096) none, .allocNetdevMq (some 4096) (some 700)] (by decide)
  refine ⟨e, ?_, ?_, ?_, ?_⟩
  · rw [← hreal]; decide
  · rw [← hblob]; decide
  · rw [← hreal]; decide
  · rw [← hblob]; decide

end BroadcomWl.Shadow.Netdev
