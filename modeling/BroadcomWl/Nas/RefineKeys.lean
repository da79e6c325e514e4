import BroadcomWl.Nas.Automaton

/-!
# Refinement: keys and key frames

What the functions of `BroadcomWl.Nas.Keys` do to the abstract state. Two relations between
the world before and the world after carry this:

- `GtkOnly`: only the group key may have changed, by steps of the automaton. The stations are
  untouched, so these steps can be moved before a change of a station that is in progress.
- `Sends`: a key frame was sent to one station, with group key steps before and after it.
-/

namespace BroadcomWl.Nas

open BroadcomWl.Lib Relation

variable {c : Ctx} {ev : Event} {w0 : World}

/-! ## The abstract state of an updated world -/

theorem core_update (f : Slot → Sta) (i : Slot) (s : Sta) :
    (fun j => (Function.update f i s j).core) = Function.update (fun j => (f j).core) i s.core := by
  funext j
  by_cases h : j = i
  · subst h; simp
  · simp [h]

@[simp] theorem abs_call (r : Bool) (w : World) : abs r w.call = abs r w := rfl

@[simp] theorem abs_setChain (r : Bool) (w : World) (h : Slot) (l : List Slot) :
    abs r (w.setChain h l) = abs r w := rfl

theorem abs_updSta (r : Bool) (w : World) (i : Slot) (f : Sta → Sta) :
    abs r (w.updSta i f) = (abs r w).put i (f (w.sta i)).core [] := by
  simp only [abs, World.updSta, Abs.put, core_update]
  rfl

theorem abs_updSta_of_core {r : Bool} {w : World} {i : Slot} {f : Sta → Sta}
    (h : (f (w.sta i)).core = (w.sta i).core) : abs r (w.updSta i f) = abs r w := by
  rw [abs_updSta, h]
  simp [Abs.put, abs]

theorem abs_out_of_visible {r : Bool} {w : World} {o : Out} (h : o.visible = true) :
    abs r (w.out o) = (abs r w).emit o := by
  simp only [abs, World.out, List.filter_cons_of_pos h]
  rfl

@[simp] theorem abs_out_send (r : Bool) (w : World) (i : Slot) (ea : Bytes) (k : KeyFrame)
    (gtk : Option (Bytes × Nat)) :
    abs r (w.out (.send i ea k gtk)) = (abs r w).emit (.send i ea k gtk) :=
  abs_out_of_visible rfl

theorem abs_out_of_not_visible {r : Bool} {w : World} {o : Out} (h : o.visible = false) :
    abs r (w.out o) = abs r w := by
  have hneg : ¬o.visible = true := by simp [h]
  simp only [abs, World.out, List.filter_cons_of_neg hneg]
  rfl

theorem abs_out (r : Bool) (w : World) (o : Out) :
    abs r (w.out o) = if o.visible then (abs r w).emit o else abs r w := by
  cases h : o.visible with
  | true => simpa using abs_out_of_visible h
  | false => simpa using abs_out_of_not_visible h

/-! ## Group key steps -/

/-- From `w` to `w'` only the group key changes, by steps of the automaton that can be taken
whatever the stations are. -/
structure GtkOnly (c : Ctx) (ev : Event) (w0 : World) (r : Bool) (w w' : World) : Prop where
  sta : w'.sta = w.sta
  hashed : w'.staHashed = w.staHashed
  countermeasures : w'.micCountermeasures = w.micCountermeasures
  plumbed : w.gtkPlumbed = true → w'.gtkPlumbed = true
  reach : ∀ s, Reach c ev w0 { abs r w with sta := s } { abs r w' with sta := s }

namespace GtkOnly

variable {r : Bool} {w w' w'' : World}

theorem refl (w : World) : GtkOnly c ev w0 r w w := ⟨rfl, rfl, rfl, id, fun _ => .refl⟩

theorem trans (h : GtkOnly c ev w0 r w w') (h' : GtkOnly c ev w0 r w' w'') :
    GtkOnly c ev w0 r w w'' :=
  ⟨h'.sta.trans h.sta, h'.hashed.trans h.hashed, h'.countermeasures.trans h.countermeasures,
    fun hp => h'.plumbed (h.plumbed hp), fun s => (h.reach s).trans (h'.reach s)⟩

/-- Worlds that differ in what neither the automaton nor the dispatcher sees. -/
theorem of_abs (hsta : w'.sta = w.sta) (hh : w'.staHashed = w.staHashed)
    (hc : w'.micCountermeasures = w.micCountermeasures) (habs : abs r w' = abs r w) :
    GtkOnly c ev w0 r w w' :=
  ⟨hsta, hh, hc, fun hp => (congrArg Abs.plumbed habs).trans hp, fun s => by rw [habs]⟩

/-- Any state reached from the stations' view of `w` reaches the group key of `w'`. -/
theorem reach_abs {A : Abs} (h : GtkOnly c ev w0 r w w') (hA : Reach c ev w0 A (abs r w)) :
    Reach c ev w0 A (abs r w') := by
  have h1 := h.reach (abs r w).sta
  have h2 : ({ abs r w' with sta := (abs r w).sta } : Abs) = abs r w' := by
    simp only [abs, h.sta]
  rw [h2] at h1
  exact hA.trans h1

end GtkOnly

/-- From `w` to `w'` nothing changes that the automaton or the dispatcher sees. -/
structure Quiet (r : Bool) (w w' : World) : Prop where
  sta : w'.sta = w.sta
  hashed : w'.staHashed = w.staHashed
  countermeasures : w'.micCountermeasures = w.micCountermeasures
  gtkLen : w'.gtkLen = w.gtkLen
  seen : abs r w' = abs r w

theorem Quiet.gtkOnly {r : Bool} {w w' : World} (h : Quiet r w w') : GtkOnly c ev w0 r w w' :=
  .of_abs h.sta h.hashed h.countermeasures h.seen

theorem Quiet.trans {r : Bool} {w w' w'' : World} (h : Quiet r w w') (h' : Quiet r w' w'') :
    Quiet r w w'' :=
  ⟨h'.sta.trans h.sta, h'.hashed.trans h.hashed, h'.countermeasures.trans h.countermeasures,
    h'.gtkLen.trans h.gtkLen, h'.seen.trans h.seen⟩

theorem Quiet.refl (r : Bool) (w : World) : Quiet r w w := ⟨rfl, rfl, rfl, rfl, rfl⟩

theorem Quiet.out (r : Bool) (w : World) {o : Out} (h : o.visible = false) : Quiet r w (w.out o) :=
  ⟨rfl, rfl, rfl, rfl, abs_out_of_not_visible h⟩

/-- A function that always returns, and whose effects nobody sees. -/
abbrev wpQuiet {α : Type} (r : Bool) (m : NasM α) (w : World) : Prop :=
  wp m (fun _ => Quiet r w) (fun _ _ => False) w

/-- A function that may stop, and in which only the group key changes. -/
abbrev wpGtk {α : Type} (c : Ctx) (ev : Event) (w0 : World) (r : Bool) (m : NasM α) (w : World) :
    Prop :=
  wp m (fun _ => GtkOnly c ev w0 r w) (fun _ => GtkOnly c ev w0 r w) w

section Quiet

variable {α : Type} {r : Bool} {w w1 : World} {m : NasM α}

theorem wp_of_quiet {Q : α → World → Prop} {E : Stop → World → Prop} (hm : wpQuiet r m w)
    (hQ : ∀ x w', Quiet r w w' → Q x w') : wp m Q E w :=
  wp_mono hm hQ (fun _ _ h => h.elim)

end Quiet

section Group

variable (c ev w0) (r : Bool) (w : World)

theorem initGlobalKeyCounter_quiet : wpQuiet r (initGlobalKeyCounter c) w := by
  simp only [wpQuiet, initGlobalKeyCounter, nasRand128, wp_bind, wp_oracle, wp_modify]
  exact ⟨rfl, rfl, rfl, rfl, rfl⟩

theorem wpaIncrGkc_quiet : wpQuiet r (wpaIncrGkc c) w := by
  simp only [wpQuiet, wpaIncrGkc, wp_bind, wp_modify, wp_get, wp_ite, wp_pure, wp_emit]
  refine ⟨fun _ => ?_, fun _ => ⟨rfl, rfl, rfl, rfl, rfl⟩⟩
  refine wp_of_quiet (initGlobalKeyCounter_quiet c r _) (fun _ w' h => ?_)
  have hincr : Quiet r w { w with globalKeyCounter := incr w.globalKeyCounter } :=
    ⟨rfl, rfl, rfl, rfl, rfl⟩
  exact (hincr.trans h).trans (.out r w' rfl)

theorem nasGetGroupRsc_quiet : wpQuiet r (nasGetGroupRsc c) w := by
  simp only [wpQuiet, nasGetGroupRsc, wp_bind, wp_oracle]
  split
  · exact ⟨rfl, rfl, rfl, rfl, rfl⟩
  · exact ⟨rfl, rfl, rfl, rfl, rfl⟩

theorem nasGetWpacap_quiet : wpQuiet r (nasGetWpacap c) w := by
  simp only [wpQuiet, nasGetWpacap, wp_bind, wp_oracle]
  split
  · exact ⟨rfl, rfl, rfl, rfl, rfl⟩
  · exact ⟨rfl, rfl, rfl, rfl, rfl⟩

theorem wpaSetItimer_quiet (td : Option Nat) : wpQuiet r (wpaSetItimer c td) w := by
  simp only [wpQuiet, wpaSetItimer, wp_bind, wp_get, wp_oracle]
  split
  · exact ⟨rfl, rfl, rfl, rfl, rfl⟩
  · exact ⟨rfl, rfl, rfl, rfl, rfl⟩

theorem wpaSetGtkTimer_quiet : wpQuiet r (wpaSetGtkTimer c) w := by
  simp only [wpQuiet, wpaSetGtkTimer, wp_bind, wp_get, wp_ite, wp_modify, wp_pure]
  refine ⟨fun _ => ?_, fun _ => ⟨rfl, rfl, rfl, rfl, rfl⟩⟩
  refine wp_of_quiet (wpaSetItimer_quiet c r w _) (fun _ w' h => ?_)
  exact h.trans ⟨rfl, rfl, rfl, rfl, rfl⟩

theorem nextNonce_quiet (i : Slot) : wpQuiet r (nextNonce c i) w := by
  simp only [wpQuiet, nextNonce, wp_bind, wp_get, wp_pure, wp_emit]
  exact wp_of_quiet (wpaIncrGkc_quiet c r _) (fun _ _ h => (Quiet.out r w rfl).trans h)

theorem wpaGetRsnCap_quiet : wpQuiet r (wpaGetRsnCap c) w := by
  simp only [wpQuiet, wpaGetRsnCap, wp_bind, wp_oracle]
  split
  · exact ⟨rfl, rfl, rfl, rfl, rfl⟩
  · exact ⟨rfl, rfl, rfl, rfl, rfl⟩

theorem buildCap_spec : wp (buildCap c) (fun cap w' => Quiet r w w' ∧ cap.length ≤ 2)
    (fun _ _ => False) w := by
  simp only [buildCap, wp_bind, wp_ite, wp_pure]
  refine ⟨fun _ => ⟨.refl r w, by simp⟩, fun _ => ?_⟩
  refine wp_of_quiet (wpaGetRsnCap_quiet c r w) (fun x w' h => ?_)
  cases x with
  | some cap => exact ⟨h, le_refl 2⟩
  | none => exact ⟨h, le_refl 2⟩

theorem mcastSuite_length (wds : Bool) (wsec algo : Nat) {oui : Bytes} (h : oui.length = 3) :
    (mcastSuite wds wsec algo oui).length = 4 := by
  unfold mcastSuite
  split
  · rfl
  · split
    · simp [h]
    · simp [h]

theorem buildSuites_isSome {tag : UInt8} {fixed oui mcast cap : Bytes} {ucast akm len : Nat}
    (hfixed : fixed.length ≤ 6) (houi : oui.length = 3) (hmcast : mcast.length = 4)
    (hlen : 24 ≤ len) : (buildSuites tag fixed oui mcast ucast akm cap len).isSome = true := by
  unfold buildSuites
  dsimp only
  split
  · rename_i h
    simp [houi, hmcast] at h
    omega
  · rfl

theorem buildSuites_length {tag : UInt8} {fixed oui mcast cap ie : Bytes} {ucast akm len : Nat}
    (hfixed : fixed.length ≤ 6) (houi : oui.length = 3) (hmcast : mcast.length = 4)
    (hcap : cap.length ≤ 2) (h : buildSuites tag fixed oui mcast ucast akm cap len = some ie) :
    ie.length ≤ 26 := by
  unfold buildSuites at h
  dsimp only at h
  split at h
  · cases h
  · cases h
    simp [houi, hmcast]
    omega

theorem pickWpaIe_length (buf : Mem) (mode len n off : Nat) :
    (pickWpaIe buf mode len n off).length ≤ len := by
  induction n generalizing off with
  | zero => simp [pickWpaIe]
  | succ n ih =>
      unfold pickWpaIe
      dsimp only
      split
      · simp
      · split
        · exact ih _
        · split
          · exact ih _
          · split
            · rename_i h
              rwa [Mem.slice_length]
            · simp

/-- `wpa_build_ie` asks the driver and reads the configuration. With the room that a key frame
or an association has, it succeeds; two elements of its own take at most 52 octets. -/
theorem wpaBuildIe_spec (wsec algo mode len : Nat) :
    wp (wpaBuildIe c wsec algo mode len)
      (fun x w' => Quiet r w w' ∧ (26 ≤ len → x.isSome = true)
        ∧ ∀ ie, x = some ie → ie.length ≤ max 52 len) (fun _ _ => False) w := by
  -- The second element, after the first one.
  have hlast : ∀ (ie : Bytes) (w' : World), ie.length ≤ 26 → Quiet r w w' →
      wp (if (has c.cfg.mode (wpa ||| wpaPsk) && has mode (wpa ||| wpaPsk)) = true then do
            let cap ← buildCap c
            pure (Option.map (fun ie' => ie ++ ie')
              (buildSuites dot11MngWpaId (wpaOui ++ [1, 1, 0]) wpaOui
                (mcastSuite c.cfg.wds wsec algo wpaOui) (ucastOf wsec)
                (akmOf c.cfg.mode wpa wpaPsk) cap
                (if (checkWpa2 c.cfg.mode && checkWpa2 mode) = true then len - 2 else len)))
          else pure (some ie))
        (fun x w' => Quiet r w w' ∧ (26 ≤ len → x.isSome = true)
          ∧ ∀ ie, x = some ie → ie.length ≤ max 52 len) (fun _ _ => False) w' := by
    intro ie w' hie h
    simp only [wp_ite, wp_bind, wp_pure]
    refine ⟨fun _ => ?_, fun _ => ⟨h, fun _ => rfl, fun ie' h' => ?_⟩⟩
    · refine wp_mono (buildCap_spec c r w') (fun cap w'' h' => ⟨h.trans h'.1, fun hlen => ?_,
        fun ie' hie' => ?_⟩) (fun _ _ h => h)
      · rw [Option.isSome_map]
        refine buildSuites_isSome (by decide) rfl (mcastSuite_length _ _ _ rfl) ?_
        split
        · omega
        · omega
      · obtain ⟨ie2, h2, rfl⟩ := Option.map_eq_some_iff.mp hie'
        have := buildSuites_length (by decide) rfl (mcastSuite_length _ _ _ rfl) h'.2 h2
        simp only [List.length_append]
        omega
    · cases h'
      omega
  simp only [wpaBuildIe, wp_bind, wp_ite, wp_pure]
  have hempty : ∀ ie : Bytes, some [] = some ie → ie.length ≤ max 52 len := by
    rintro _ ⟨⟩
    exact Nat.zero_le _
  refine ⟨fun _ => ⟨fun _ => ?_, fun _ => ⟨.refl r w, fun _ => rfl, hempty⟩⟩,
    fun _ => ⟨fun _ => ?_, fun _ => ?_⟩⟩
  · simp only [wp_oracle]
    split
    · exact ⟨⟨rfl, rfl, rfl, rfl, rfl⟩, fun _ => rfl, hempty⟩
    · refine ⟨⟨rfl, rfl, rfl, rfl, rfl⟩, fun _ => rfl, ?_⟩
      rintro _ ⟨⟩
      exact (pickWpaIe_length _ _ _ _ _).trans (le_max_right _ _)
  · refine wp_mono (buildCap_spec c r w) (fun cap w' h => ?_) (fun _ _ h => h.elim)
    split
    · rename_i hnone
      refine ⟨h.1, fun hlen => ?_, (by intros; contradiction)⟩
      rw [← hnone]
      exact buildSuites_isSome (by decide) rfl (mcastSuite_length _ _ _ rfl) (by omega)
    · rename_i ie2 hsome
      have hlen := buildSuites_length (by decide) rfl (mcastSuite_length _ _ _ rfl) h.2 hsome
      rw [wp_ite]
      refine ⟨fun _ => ⟨h.1, fun _ => rfl, ?_⟩, fun _ => hlast _ w' hlen h.1⟩
      rintro _ ⟨⟩
      omega
  · have h := hlast [] w (by simp) (.refl r w)
    simp only [wp_ite, wp_bind, wp_pure] at h
    exact ⟨fun _ => ⟨.refl r w, fun _ => rfl, hempty⟩, fun _ => h⟩

/-- `wpa_gen_gtk` changes the group key and nothing else that is seen. -/
structure GtkGen (r : Bool) (w w' : World) : Prop where
  sta : w'.sta = w.sta
  hashed : w'.staHashed = w.staHashed
  countermeasures : w'.micCountermeasures = w.micCountermeasures
  seen : abs r w' = { abs r w with gtk := (abs r w').gtk, fits := (abs r w').fits }
  fits : (abs r w).fits = true → (abs r w').fits = true

theorem wpaGenGtk_spec : wp (wpaGenGtk c) (fun _ => GtkGen r w) (fun _ _ => False) w := by
  simp only [wpaGenGtk, wp_bind, wp_get]
  split
  · exact ⟨rfl, rfl, rfl, rfl, fun h => h⟩
  · rename_i len hlen
    simp only [wp_bind, wp_modify, wp_emit]
    refine wp_of_quiet (wpaIncrGkc_quiet c r _) (fun _ w' hincr => ?_)
    have h := Quiet.trans (Quiet.out r _ rfl) hincr
    refine ⟨h.sta, h.hashed, h.countermeasures, ?_, fun _ => ?_⟩
    · have habs := h.seen
      simp only [abs, Abs.mk.injEq] at habs ⊢
      simp [habs]
    · have hlen' : w'.gtkLen = len := h.gtkLen
      simp only [abs, hlen', List.length_append, List.length_take, decide_eq_true_eq]
      have := c.crypto.le_fPRF_length w.gmk
        [0x47, 0x72, 0x6f, 0x75, 0x70, 0x20, 0x6b, 0x65, 0x79, 0x20, 0x65, 0x78,
          0x70, 0x61, 0x6e, 0x73, 0x69, 0x6f, 0x6e] (c.cfg.ea ++ w.globalKeyCounter) len
      omega

/-- The group key is given to the driver, whether it is accepted or not. -/
structure Plumbs (c : Ctx) (r tx : Bool) (w w' : World) : Prop where
  sta : w'.sta = w.sta
  hashed : w'.staHashed = w.staHashed
  countermeasures : w'.micCountermeasures = w.micCountermeasures
  seen : ∃ n rsc, abs r w' = (abs r w).plumb c n tx rsc

/-- A refused group key is logged with its return code and leaves the flag alone. -/
theorem Plumbs.refused (tx : Bool) (rsc : Bytes)
    (h : c.drv.setKey w.calls (groupArgs w.groupKey tx rsc) < 0) :
    Plumbs c r tx w (w.call.out (.setKey (groupArgs w.groupKey tx rsc)
      (c.drv.setKey w.calls (groupArgs w.groupKey tx rsc)))) := by
  refine ⟨rfl, rfl, rfl, w.calls, rsc, ?_⟩
  have hnot : ¬0 ≤ c.drv.setKey w.calls (groupArgs (abs r w).gtk tx rsc) := not_le.mpr h
  rw [abs_out_of_visible rfl]
  simp only [Abs.plumb, hnot, decide_false, Bool.or_false]
  rfl

theorem Plumbs.taken (tx : Bool) (rsc : Bytes)
    (h : ¬c.drv.setKey w.calls (groupArgs w.groupKey tx rsc) < 0) :
    Plumbs c r tx w { w.call.out (.setKey (groupArgs w.groupKey tx rsc)
      (c.drv.setKey w.calls (groupArgs w.groupKey tx rsc))) with gtkPlumbed := true } := by
  refine ⟨rfl, rfl, rfl, w.calls, rsc, ?_⟩
  have hpos : 0 ≤ c.drv.setKey w.calls (groupArgs (abs r w).gtk tx rsc) := not_lt.mp h
  have hplumb : (abs r w).plumb c w.calls tx rsc =
      { abs r (w.call.out (.setKey (groupArgs w.groupKey tx rsc)
        (c.drv.setKey w.calls (groupArgs w.groupKey tx rsc)))) with plumbed := true } := by
    rw [abs_out_of_visible rfl]
    simp only [Abs.plumb, hpos, decide_true, Bool.or_true]
    rfl
  rw [hplumb]
  rfl

theorem wpaPlumbGtk_spec (tx : Bool) :
    wp (wpaPlumbGtk c tx) (fun _ => Plumbs c r tx w) (fun _ => Plumbs c r tx w) w := by
  simp only [wpaPlumbGtk, nasSetKey, wp_bind, wp_get, wp_oracle, wp_emit, wp_pure, wp_ite,
    wp_nasHandleError, wp_modify]
  have hneg := Plumbs.refused c r w tx (w.gtkRsc.take 6)
  exact ⟨fun hlt => ⟨fun _ => hneg hlt, fun _ => hneg hlt⟩, Plumbs.taken c r w tx (w.gtkRsc.take 6)⟩

/-- Making and plumbing a key where there is none is a step of the automaton. -/
theorem GtkGen.plumb {w w' w'' : World} (hg : GtkGen r w w') (hp : Plumbs c r true w' w'')
    (hplumbed : w.gtkPlumbed = false) : GtkOnly c ev w0 r w w'' := by
  obtain ⟨n, rsc, habs⟩ := hp.seen
  refine ⟨hp.sta.trans hg.sta, hp.hashed.trans hg.hashed,
    hp.countermeasures.trans hg.countermeasures, fun h => ?_, fun s => ?_⟩
  · cases h.symm.trans hplumbed
  rw [habs, hg.seen]
  exact .single (.gtkInit (abs r w').gtk (abs r w').fits n rsc hplumbed hg.fits)

theorem Plumbs.plumbed {tx : Bool} {w w' : World} (h : Plumbs c r tx w w') :
    Plumbed c (abs r w') := by
  intro htaken
  obtain ⟨n, rsc, habs⟩ := h.seen
  have hpos : 0 ≤ c.drv.setKey n (groupArgs (abs r w).gtk tx rsc) := htaken n _ rfl
  rw [habs]
  simp only [Abs.plumb, hpos, decide_true, Bool.or_true]

theorem Plumbed.of_gtkOnly {w w' : World} (h : Plumbed c (abs r w)) (hg : GtkOnly c ev w0 r w w') :
    Plumbed c (abs r w') := fun htaken => hg.plumbed (h htaken)

theorem wpaInitGtk_spec (hplumbed : w.gtkPlumbed = false) :
    wp (wpaInitGtk c) (fun _ w' => GtkOnly c ev w0 r w w' ∧ Plumbed c (abs r w'))
      (fun _ => GtkOnly c ev w0 r w) w := by
  simp only [wpaInitGtk, wp_bind]
  refine wp_mono (wpaGenGtk_spec c r w) (fun _ w1 hg => ?_) (fun _ _ h => h.elim)
  refine wp_mono (wpaPlumbGtk_spec c r w1 true) (fun _ w2 hp => ?_) (fun _ w2 hp => ?_)
  · have h := GtkGen.plumb c ev w0 r hg hp hplumbed
    refine wp_of_quiet (wpaSetGtkTimer_quiet c r w2) (fun _ w3 h' => ⟨h.trans h'.gtkOnly, ?_⟩)
    rw [h'.seen]
    exact hp.plumbed
  · exact GtkGen.plumb c ev w0 r hg hp hplumbed

theorem ensureGtk_spec : wp (ensureGtk c)
    (fun _ w' => GtkOnly c ev w0 r w w' ∧ Plumbed c (abs r w'))
      (fun _ => GtkOnly c ev w0 r w) w := by
  simp only [ensureGtk, wp_bind, wp_get, wp_ite]
  refine ⟨fun h => ?_, fun h => ?_⟩
  · exact wpaInitGtk_spec c ev w0 r w (by simpa using h)
  · refine wp_of_quiet (nasGetGroupRsc_quiet c r w) (fun _ w' h' => ⟨h'.gtkOnly, fun _ => ?_⟩)
    rw [h'.seen]
    simpa [abs] using h

theorem wpaInsertGtk_spec : wp (wpaInsertGtk c)
    (fun _ w' => GtkOnly c ev w0 r w w' ∧ Plumbed c (abs r w'))
      (fun _ => GtkOnly c ev w0 r w) w := by
  simp only [wpaInsertGtk, wp_bind, wp_get, wp_pure]
  exact ensureGtk_spec c ev w0 r w

theorem wpaInsertGtk_sta :
    wp (wpaInsertGtk c) (fun _ w' => w'.sta = w.sta) (fun _ _ => True) w :=
  wp_mono (wpaInsertGtk_spec c .gtkTimer w true w) (fun _ _ h => h.1.sta) (fun _ _ _ => trivial)

/-- The padding of the key wrap does not change a group key that has its full length. -/
theorem padded_take {gtk : Bytes} {len : Nat} (h : len ≤ gtk.length) (rest : Bytes) :
    (padKeyData 0 (gtk.take len) ++ rest).take len = gtk.take len := by
  have hlen : (gtk.take len).length = len := by simp [h]
  have hpad : ∃ p, padKeyData 0 (gtk.take len) = gtk.take len ++ p := by
    unfold padKeyData
    dsimp only
    split
    · exact ⟨_, rfl⟩
    · split
      · exact ⟨_, rfl⟩
      · exact ⟨[], by simp⟩
  obtain ⟨p, hp⟩ := hpad
  rw [hp, List.append_assoc, List.take_append_of_le_length (by omega), List.take_of_length_le
    (by omega)]

/-- The padding of the key wrap, which shows only if the group key is too short. -/
structure Pads (r : Bool) (w w' : World) : Prop where
  sta : w'.sta = w.sta
  hashed : w'.staHashed = w.staHashed
  countermeasures : w'.micCountermeasures = w.micCountermeasures
  seen : abs r w' = { abs r w with gtk := (abs r w').gtk, fits := (abs r w').fits }
  fits : (abs r w).fits = true → abs r w' = abs r w

theorem Pads.refl (w : World) : Pads r w w := ⟨rfl, rfl, rfl, rfl, fun _ => rfl⟩

theorem Pads.trans {w w' w'' : World} (h : Pads r w w') (h' : Quiet r w' w'') : Pads r w w'' :=
  ⟨h'.sta.trans h.sta, h'.hashed.trans h.hashed, h'.countermeasures.trans h.countermeasures,
    by rw [h'.seen]; exact h.seen, fun hf => h'.seen.trans (h.fits hf)⟩

theorem Pads.gtkOnly {w w' : World} (h : Pads r w w') : GtkOnly c ev w0 r w w' := by
  refine ⟨h.sta, h.hashed, h.countermeasures, fun hp => ?_, fun s => ?_⟩
  · have hseen := congrArg Abs.plumbed h.seen
    exact hseen.trans hp
  cases hf : (abs r w).fits with
  | true => rw [h.fits hf]
  | false =>
      rw [h.seen]
      exact .single (.gtkPad _ _ hf)

theorem Pads.out {w w' : World} (h : Pads r w w') {o : Out} (ho : o.visible = true) :
    Pads r (w.out o) (w'.out o) := by
  refine ⟨h.sta, h.hashed, h.countermeasures, ?_, fun hf => ?_⟩
  · rw [abs_out_of_visible ho, abs_out_of_visible ho, h.seen]
    rfl
  · rw [abs_out_of_visible ho] at hf
    rw [abs_out_of_visible ho, abs_out_of_visible ho, h.fits hf]

theorem wpaEncrGtk_spec (s : Sta) :
    wp (wpaEncrGtk c s) (fun _ => Pads r w) (fun _ _ => False) w := by
  simp only [wpaEncrGtk, wp_bind, wp_get, wp_ite, wp_pure, wp_modify]
  refine ⟨fun _ => .refl r w, fun _ => ⟨fun _ => ?_, fun _ => .refl r w⟩⟩
  refine ⟨rfl, rfl, rfl, rfl, fun hf => ?_⟩
  have hfits : w.gtkLen ≤ w.gtk.length := of_decide_eq_true hf
  have hkey := padded_take hfits (w.gtk.drop (padKeyData 0 (w.gtk.take w.gtkLen)).length)
  have hlen : w.gtkLen ≤ (padKeyData 0 (w.gtk.take w.gtkLen)
      ++ w.gtk.drop (padKeyData 0 (w.gtk.take w.gtkLen)).length).length := by
    have h := congrArg List.length hkey
    simp only [List.length_take] at h
    omega
  simp only [abs, World.groupKey, hkey, decide_eq_true hlen, decide_eq_true hfits]

end Group

/-! ## Sending a key frame -/

/-- The message of state `st` is sent to the station in slot `i`, with its replay counter, and
with the group key if the message carries one. Message 3 carries a key that is plumbed. -/
def Sends (c : Ctx) (ev : Event) (w0 : World) (r : Bool) (i : Slot) (s : Sta) (st : WpaState)
    (w w' : World) : Prop :=
  ∃ w1 k, GtkOnly c ev w0 r w w1 ∧ k.replay = s.replay ∧
    (st = .ptkinitnegotiating → checkWpa2 s.mode = true → Plumbed c (abs r w1)) ∧
    GtkOnly c ev w0 r (w1.out (.send i s.ea k (carried (abs r w1) s.mode st))) w'

theorem Sends.intro {r : Bool} {i : Slot} {s : Sta} {st : WpaState} {w w1 : World} {k : KeyFrame}
    {gtk : Option (Bytes × Nat)} (hg : GtkOnly c ev w0 r w w1) (hk : k.replay = s.replay)
    (hplumbed : st = .ptkinitnegotiating → checkWpa2 s.mode = true → Plumbed c (abs r w1))
    (hgtk : gtk = carried (abs r w1) s.mode st) :
    Sends c ev w0 r i s st w (w1.out (.send i s.ea k gtk)) :=
  ⟨w1, k, hg, hk, hplumbed, hgtk ▸ .refl _⟩

section Send

variable (c ev w0) (r : Bool) (w : World) (i : Slot)

theorem sendPtkstart_spec : wp (sendPtkstart i)
    (fun b w' => b = true ∧ Sends c ev w0 r i (w.sta i) .ptkstart w w') (fun _ _ => False) w := by
  simp only [sendPtkstart, wp_bind, wp_getSta, wp_emit, wp_pure]
  exact ⟨trivial, .intro (.refl w) rfl (by rintro ⟨⟩) rfl⟩

theorem encrKeyData_desc {s : Sta} {iv data x : Bytes}
    (h : encrKeyData c.crypto s iv data = some x) :
    s.desc ≠ 0 := by
  intro h0
  simp [encrKeyData, h0, wpaKeyDescV1, wpaKeyDescV2] at h

theorem sendPtkinitnegotiating_spec : wp (sendPtkinitnegotiating c i)
    (fun b w' => b = true ∧ (checkWpa2 (w.sta i).mode = true → (w.sta i).desc ≠ 0)
      ∧ Sends c ev w0 r i (w.sta i) .ptkinitnegotiating w w')
    (fun _ => GtkOnly c ev w0 r w) w := by
  simp only [sendPtkinitnegotiating, wp_bind, wp_getSta, wp_get]
  refine wp_mono (wpaBuildIe_spec c r w _ _ _ _) (fun x w1 hb => ?_) (fun _ _ h => h.elim)
  have hsome := hb.2.1 (by decide)
  have hq : GtkOnly c ev w0 r w w1 := hb.1.gtkOnly
  cases x with
  | none => cases hsome
  | some ie =>
      simp only [wp_ite, wp_bind, wp_get]
      refine ⟨fun h2 => ?_, fun h2 => ?_⟩
      · refine wp_mono (wpaInsertGtk_spec c ev w0 r w1) (fun kde w2 hg => ?_)
          (fun _ _ hg => hq.trans hg)
        have hg1 := hq.trans hg.1
        split
        · exact hg1
        · rename_i data hdata
          simp only [wp_bind, wp_emit, wp_pure]
          refine ⟨trivial, fun _ => encrKeyData_desc c hdata,
            .intro (hg1.trans (Quiet.out r w2 rfl).gtkOnly) rfl (fun _ _ => hg.2) ?_⟩
          rw [carried, if_pos h2]
          rfl
      · simp only [wp_emit, wp_pure]
        refine ⟨trivial, fun h => absurd h h2, .intro hq rfl (fun _ h => absurd h h2) ?_⟩
        rw [carried, if_neg h2]

theorem sendRekeynegotiating_spec : wp (sendRekeynegotiating c i)
    (fun b w' => b = true ∧ Sends c ev w0 r i (w.sta i) .rekeynegotiating w w')
    (fun _ => GtkOnly c ev w0 r w) w := by
  simp only [sendRekeynegotiating, wp_bind, wp_getSta, wp_get, wp_ite]
  refine ⟨fun _ => ?_, fun _ => ?_⟩
  · refine wp_mono (wpaInsertGtk_spec c ev w0 r w) (fun kde w1 hg => ?_) (fun _ _ hg => hg)
    split
    · exact hg.1
    · simp only [wp_bind, wp_emit, wp_pure]
      exact ⟨trivial, .intro (hg.1.trans (Quiet.out r w1 rfl).gtkOnly) rfl
        (by rintro ⟨⟩) rfl⟩
  · -- The key is padded before the frame goes out, but the frame carries it as it was.
    refine wp_mono (wpaEncrGtk_spec c r w _) (fun x w1 hp => ?_) (fun _ _ h => h.elim)
    cases x with
    | none => exact Pads.gtkOnly c ev w0 r hp
    | some data =>
        simp only [wp_bind, wp_emit, wp_pure]
        refine ⟨trivial, w, _, .refl w, ?_, (by rintro ⟨⟩),
          Pads.gtkOnly c ev w0 r (Pads.out r (hp.trans r (.out r w1 rfl)) rfl)⟩
        rfl

theorem wpaSendEapol_ptkstart (hst : (w.sta i).state = .ptkstart) : wp (wpaSendEapol c i)
    (fun b w' => b = true ∧ ∃ k, k.replay = (w.sta i).replay
      ∧ w' = w.out (.send i (w.sta i).ea k none)) (fun _ _ => False) w := by
  simp only [wpaSendEapol, sendPtkstart, wp_bind, wp_getSta, hst, wp_emit, wp_pure]
  exact ⟨trivial, _, rfl, rfl⟩

theorem wpaSendEapol_sends (st : WpaState) (hst : (w.sta i).state = st) (hs : st.sends = true) :
    wp (wpaSendEapol c i)
      (fun b w' => b = true
        ∧ (st = .ptkinitnegotiating → checkWpa2 (w.sta i).mode = true → (w.sta i).desc ≠ 0)
        ∧ Sends c ev w0 r i (w.sta i) st w w')
      (fun _ => GtkOnly c ev w0 r w) w := by
  simp only [wpaSendEapol, wp_bind, wp_getSta, hst]
  cases st with
  | ptkstart =>
      refine wp_mono (sendPtkstart_spec c ev w0 r w i) (fun b w' h => ?_) (fun _ _ h => h.elim)
      exact ⟨h.1, (by rintro ⟨⟩), h.2⟩
  | ptkinitnegotiating =>
      refine wp_mono (sendPtkinitnegotiating_spec c ev w0 r w i) (fun b w' h => ?_)
        (fun _ _ h => h)
      exact ⟨h.1, fun _ => h.2.1, h.2.2⟩
  | rekeynegotiating =>
      refine wp_mono (sendRekeynegotiating_spec c ev w0 r w i) (fun b w' h => ?_) (fun _ _ h => h)
      exact ⟨h.1, (by rintro ⟨⟩), h.2⟩
  | _ => cases hs

/-- In any other state, nothing is sent or a message without a group key. -/
def SendsOther (r : Bool) (i : Slot) (b : Bool) (w w' : World) : Prop :=
  (b = false ∧ abs r w' = abs r w) ∨ (b = true ∧ ∃ k, k.replay = (w.sta i).replay ∧
    abs r w' = (abs r w).emit (.send i (w.sta i).ea k none))

theorem SendsOther.send {w1 : World} {k : KeyFrame} (hk : k.replay = (w.sta i).replay)
    (hseen : abs r w1 = abs r w) :
    SendsOther r i true w (w1.out (.send i (w.sta i).ea k none)) := by
  refine .inr ⟨rfl, k, hk, ?_⟩
  rw [abs_out_of_visible rfl, hseen]

theorem sendStakeystart_spec (pairwise : Bool) : wp (sendStakeystart c i pairwise)
    (fun b w' => SendsOther r i b w w') (fun _ _ => False) w := by
  -- The end of the function, in a world that looks like the first one.
  have hend : ∀ (w1 : World) (k : KeyFrame), k.replay = (w.sta i).replay → abs r w1 = abs r w →
      ((w.sta i).desc = wpaKeyDescV1 ∨ (w.sta i).desc = wpaKeyDescV2 →
        SendsOther r i true w (w1.out (.send i (w.sta i).ea k none))) ∧
      (¬((w.sta i).desc = wpaKeyDescV1 ∨ (w.sta i).desc = wpaKeyDescV2) →
        ((!c.cfg.wds) = true → SendsOther r i false w (w1.out .disassoc)) ∧
        (¬(!c.cfg.wds) = true → SendsOther r i false w w1)) := by
    intro w1 k hk h
    refine ⟨fun _ => SendsOther.send r w i hk h, fun _ => ⟨fun _ => .inl ⟨rfl, ?_⟩,
      fun _ => .inl ⟨rfl, h⟩⟩⟩
    rw [abs_out_of_not_visible rfl, h]
  have hpk : ∀ w1 : World, abs r w1 = abs r w →
      abs r (w1.updSta i fun s => { s with pkState := .msg3 }) = abs r w :=
    fun w1 h => (abs_updSta_of_core rfl).trans h
  simp only [sendStakeystart, wp_bind, wp_getSta, wp_ite]
  refine ⟨fun _ => ?_, fun _ => ?_⟩
  · refine wp_mono (wpaBuildIe_spec c r w _ _ _ _) (fun x w1 hb => ?_) (fun _ _ h => h.elim)
    cases x with
    | none => exact .inl ⟨rfl, hb.1.seen⟩
    | some data =>
        simp only [wp_bind, wp_modSta, wp_emit, wp_pure, wp_ite]
        refine ⟨fun _ => hend _ _ ?_ (hpk w1 hb.1.seen), fun _ => hend _ _ ?_ hb.1.seen⟩
        · rfl
        · rfl
  · simp only [wp_bind, wp_modSta, wp_emit, wp_pure, wp_ite]
    refine ⟨fun _ => hend _ _ ?_ (hpk w rfl), fun _ => hend _ _ ?_ rfl⟩
    · rfl
    · rfl

theorem wpaSendEapol_other (hs : (w.sta i).state.sends = false) : wp (wpaSendEapol c i)
    (fun b w' => SendsOther r i b w w') (fun _ _ => False) w := by
  simp only [wpaSendEapol, wp_bind, wp_getSta]
  cases hst : (w.sta i).state with
  | supInitialise =>
      simp only [wp_bind, wp_getSta, wp_emit, wp_pure]
      exact SendsOther.send r w i rfl rfl
  | supStakeystartp => exact sendStakeystart_spec c r w i true
  | supStakeystartg => exact sendStakeystart_spec c r w i false
  | ptkstart => rw [hst] at hs; cases hs
  | ptkinitnegotiating => rw [hst] at hs; cases hs
  | rekeynegotiating => rw [hst] at hs; cases hs
  | _ => exact .inl ⟨rfl, rfl⟩

end Send

end BroadcomWl.Nas
