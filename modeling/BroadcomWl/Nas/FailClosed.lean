import BroadcomWl.Crypto.Evaluate
import BroadcomWl.Nas.EffectsStep
import BroadcomWl.Nas.Workspace

/-!
# An interface with an invalid configuration

The main loop does not wait for the RADIUS socket of a control block with the error flag, so no
response is dispatched to it. But a packet of `eapd` is dispatched to the block that
`nas_wksp_find_nwcb` finds or adds, and nothing there asks for the flag.

**`fail_closed`.** No station of a flagged block is authorized in a run in which no packet of `eapd`
is dispatched to one. The invariant (`Wksp.Inv`): a flagged block has no stations, and the
descriptors are all different.

**`flagged_authorizes`.** With a pre-shared key of 64 characters that is not hexadecimal, the block
has the PMK that the loop has written so far, and a station that knows it completes the handshake.
-/

namespace BroadcomWl.Nas

open BroadcomWl.Lib BroadcomWl.Crypto

/-! ## Blocks without stations -/

/-- Nothing has been dispatched to the block. -/
structure Block.Idle (b : Block) : Prop where
  started : b.started = false
  unused : ∀ i, (b.nas.sta i).used = false
  log : ∀ ea, Out.authorize ea ∉ b.nas.log

variable {c : Ctx} {w : World}

theorem newGtkLoop_unused (hw : ∀ i, (w.sta i).used = false) (l : List Slot) (didOne : Bool) :
    wp (newGtkLoop c l didOne) (fun x w' => x = didOne ∧ w' = w) (fun _ _ => False) w := by
  induction l with
  | nil => exact ⟨rfl, rfl⟩
  | cons i l ih =>
      simp only [newGtkLoop, wp_bind, wp_getSta, wp_ite, hw]
      exact ⟨fun _ => ih, fun h => (h rfl).elim⟩

theorem wpaNewGtkCallback_unused (hw : ∀ i, (w.sta i).used = false) :
    wp (wpaNewGtkCallback c) (fun _ w' => w' = w) (fun _ _ => False) w := by
  simp only [wpaNewGtkCallback, wp_bind]
  refine wp_mono (newGtkLoop_unused hw slots false) (fun x w' h => ?_) (fun _ _ h => h)
  obtain ⟨rfl, rfl⟩ := h
  rfl

/-- Stations and log are as before. -/
def Unmoved (w w' : World) : Prop := w'.sta = w.sta ∧ w'.log = w.log

theorem wpaSetGtkTimer_unmoved (w : World) :
    Keeps (Unmoved w) (fun _ _ => False) (wpaSetGtkTimer c) := by
  unfold wpaSetGtkTimer wpaSetItimer
  refine .ite (.bind .get fun _ =>
      .bind (.bind .get fun _ => .bind (fun _ h => h) fun x => ?_) fun _ =>
    .modifyState fun _ h => h) (.pure _)
  cases x with
  | _ => exact .pure _

/-- **A new group key** without stations to send it to. -/
theorem step_unmoved {ev : Event} (now : Nat) (hw : ∀ i, (w.sta i).used = false)
    (hev : ev = .forceRekey ∨ ev = .gtkTimer) : Unmoved w (step c w (now, ev)) := by
  cases hlive : w.halted with
  | true =>
      rw [step, if_pos hlive]
      exact ⟨rfl, rfl⟩
  | false =>
      refine step_of_wp c hlive ?_
      rcases hev with rfl | rfl
      · simp only [dispatch, wpaNewGtk, wp_bind, wp_ite, wp_modify, wp_pure]
        refine ⟨fun _ => ?_, fun _ => ⟨rfl, rfl⟩⟩
        refine wp_mono (wpaNewGtkCallback_unused hw) (fun _ w' h => ?_) (fun _ _ h => h.elim)
        rw [h]
        exact wp_mono (wpaSetGtkTimer_unmoved w _ ⟨rfl, rfl⟩) (fun _ _ h => h) (fun _ _ h => h.elim)
      · refine wp_mono (wpaNewGtkCallback_unused hw) (fun _ w' h => ?_) (fun _ _ h => h.elim)
        rw [h]
        exact ⟨rfl, rfl⟩

theorem Block.Idle.rekey {b : Block} {ev : Event} (h : b.Idle) (now : Nat)
    (hev : ev = .forceRekey ∨ ev = .gtkTimer) :
    Idle { b with nas := step b.ctx b.nas (now, ev) } := by
  obtain ⟨hsta, hlog⟩ := step_unmoved (c := b.ctx) now h.unused hev
  refine ⟨h.started, fun i => ?_, fun ea hmem => h.log ea ?_⟩
  · show ((step b.ctx b.nas (now, ev)).sta i).used = false
    rw [hsta]
    exact h.unused i
  · rwa [← hlog]

/-! ## Initialisation -/

theorem initLen_booted : Keeps Booted (fun _ _ => False) (initLen c) := by
  unfold initLen
  refine .ite (.modifyState fun w h => ?_) (.pure _)
  exact ⟨h.log, h.sta, h.counter, h.length, show wep128KeySize ≤ tkipTkLen by decide, h.micFailures,
    h.prevMicError, h.micCountermeasures, h.gnonce⟩

theorem exec_booted {m : NasM Unit} (h : Keeps Booted (fun _ _ => False) m) :
    Booted (exec m World.zero) := by
  have hwp := h World.zero ⟨rfl, rfl, rfl, rfl, by decide, rfl, rfl, rfl, rfl⟩
  unfold wp at hwp
  unfold exec
  cases hm : m World.zero with
  | ok u w' => rwa [hm] at hwp
  | error e w' =>
      rw [hm] at hwp
      exact hwp.elim

/-- **`nas_init_nas`** leaves a block that it flags without stations. -/
theorem nasInitBlock_idle {h : Host} {wan : Option Nat} {s : Setup}
    (he : (nasInitBlock h wan s).error = true) :
    (nasInitBlock h wan s).Idle := by
  have hbooted : ∀ (interface : Bytes) (c : Ctx) {w : World}, Booted w →
      (Block.mk interface true c wan false w).Idle := by
    intro interface c w hw
    refine ⟨rfl, fun i => ?_, fun ea => ?_⟩
    · show (w.sta i).used = false
      rw [hw.sta]
      rfl
    · show Out.authorize ea ∉ w.log
      rw [hw.log]
      exact List.not_mem_nil
  unfold nasInitBlock at he ⊢
  dsimp only at he ⊢
  split at he
  · rename_i hbad
    rw [if_pos hbad]
    exact hbooted _ _ ⟨rfl, rfl, rfl, rfl, by decide, rfl, rfl, rfl, rfl⟩
  · rename_i hbad
    rw [if_neg hbad]
    generalize validIndex s = x at he ⊢
    obtain ⟨index, gtkRekeySecs⟩ := x
    dsimp only at he ⊢
    cases hkey : pskKey h.passhash s with
    | none => exact hbooted _ _ (exec_booted initLen_booted)
    | some found =>
        obtain ⟨pmk, ok⟩ := found
        rw [hkey] at he
        dsimp only at he ⊢
        split at he
        · rename_i hwep
          rw [if_pos hwep]
          exact hbooted _ _ (exec_booted (.bind initLen_booted fun _ => initSeeds_booted))
        · rename_i hwep
          rw [if_neg hwep]
          split at he
          · rename_i hflag
            rw [if_pos hflag]
            exact hbooted _ _ (exec_booted nasInitKeys_booted)
          · cases he

theorem nasInitBlock_wan (h : Host) (wan : Option Nat) (s : Setup) :
    nasInitBlock h wan s = { nasInitBlock h none s with wan := wan } := by
  unfold nasInitBlock
  dsimp only
  split
  · rfl
  · generalize validIndex s = x
    obtain ⟨index, gtkRekeySecs⟩ := x
    dsimp only
    cases pskKey h.passhash s with
    | none => rfl
    | some found =>
        obtain ⟨pmk, ok⟩ := found
        dsimp only
        split
        · rfl
        · split
          · rfl
          · rfl

/-! ## Descriptors -/

namespace Wksp

/-- A flagged block is idle, and every descriptor belongs to one socket. -/
structure Inv (W : Wksp) : Prop where
  idle : ∀ (k : Nat) (b : Block), W.nwcbs[k]? = some b → b.error = true → b.Idle
  eapd : ∀ (k : Nat) (b : Block) (fd : Nat), W.nwcbs[k]? = some b → b.wan = some fd →
    W.eapd ≠ some fd
  wan : ∀ (j k : Nat) (a b : Block) (fd : Nat), W.nwcbs[j]? = some a → W.nwcbs[k]? = some b →
    a.wan = some fd → b.wan = some fd → j = k

/-- The sockets of flagged blocks are not in the set. -/
def Outside (W : Wksp) (set : List Nat) : Prop :=
  ∀ (k : Nat) (b : Block) (fd : Nat), W.nwcbs[k]? = some b → b.error = true →
    b.wan = some fd → fd ∉ set

/-- No other block has the descriptor, and `eapd` has not. -/
def Free (W : Wksp) (k fd : Nat) : Prop :=
  W.eapd ≠ some fd ∧ ∀ (j : Nat) (b : Block), j ≠ k → W.nwcbs[j]? = some b → b.wan ≠ some fd

/-- Only this block has been touched, and a new socket has a descriptor of its own. -/
structure Touched (k : Nat) (W W' : Wksp) : Prop where
  eapd : W'.eapd = W.eapd
  other : ∀ j, j ≠ k → W'.nwcbs[j]? = W.nwcbs[j]?
  self : ∀ b : Block, W'.nwcbs[k]? = some b → ∃ a : Block, W.nwcbs[k]? = some a ∧ b.error = a.error
    ∧ ∀ fd, b.wan = some fd → a.wan = some fd ∨ W.Free k fd

variable {W W' W'' : Wksp} {h : Host} {k : Nat} {set : List Nat}

theorem mem_held {fd : Nat} :
    fd ∈ W.held ↔ W.eapd = some fd ∨ ∃ (k : Nat) (b : Block), W.nwcbs[k]? = some b ∧
    b.wan = some fd := by
  rw [held, List.mem_append, Option.mem_toList, List.mem_filterMap]
  refine or_congr Iff.rfl ⟨?_, ?_⟩
  · rintro ⟨b, hmem, hb⟩
    obtain ⟨k, hk⟩ := List.mem_iff_getElem?.mp hmem
    exact ⟨k, b, hk, hb⟩
  · rintro ⟨k, b, hk, hb⟩
    exact ⟨b, List.mem_of_getElem? hk, hb⟩

theorem modify_other (f : Block → Block) {j : Nat} (hj : j ≠ k) :
    (W.modify k f).nwcbs[j]? = W.nwcbs[j]? :=
  List.getElem?_modify_ne f W.nwcbs (Ne.symm hj)

theorem modify_self {f : Block → Block} {b : Block} (hb : (W.modify k f).nwcbs[k]? = some b) :
    ∃ a, W.nwcbs[k]? = some a ∧ f a = b :=
  Option.map_eq_some_iff.mp ((List.getElem?_modify_eq f k W.nwcbs).symm.trans hb)

theorem Touched.trans (h1 : Touched k W W') (h2 : Touched k W' W'') : Touched k W W'' := by
  refine ⟨h2.eapd.trans h1.eapd, fun j hj => (h2.other j hj).trans (h1.other j hj), fun b hb => ?_⟩
  obtain ⟨a', ha', herr', hwan'⟩ := h2.self b hb
  obtain ⟨a, ha, herr, hwan⟩ := h1.self a' ha'
  refine ⟨a, ha, herr'.trans herr, fun fd hfd => ?_⟩
  rcases hwan' fd hfd with hsame | hfree
  · exact hwan fd hsame
  · refine .inr ⟨?_, fun j b' hj hb' => hfree.2 j b' hj ?_⟩
    · rw [← h1.eapd]
      exact hfree.1
    · rw [h1.other j hj]
      exact hb'

theorem touched_modify {f : Block → Block} (hf : ∀ b, (f b).error = b.error ∧ (f b).wan = b.wan) :
    Touched k W (W.modify k f) := by
  refine ⟨rfl, fun j hj => modify_other f hj, fun b hb => ?_⟩
  obtain ⟨a, ha, rfl⟩ := modify_self hb
  refine ⟨a, ha, (hf a).1, fun fd hfd => .inl ?_⟩
  rw [← (hf a).2]
  exact hfd

theorem touched_radiusOpen : Touched k W (W.radiusOpen h k) := by
  refine ⟨rfl, fun j hj => (modify_other _ hj).trans (modify_other _ hj), fun b hb => ?_⟩
  obtain ⟨a', ha', rfl⟩ := modify_self hb
  obtain ⟨a, ha, rfl⟩ := modify_self ha'
  refine ⟨a, ha, rfl, fun fd hfd => .inr ?_⟩
  have hfresh := h.radiusOpen_fresh _ _ fd hfd
  rw [mem_held, not_or] at hfresh
  exact ⟨hfresh.1, fun j b' hj hb' hwan => hfresh.2 ⟨j, b', (modify_other _ hj).trans hb', hwan⟩⟩

theorem touched_deliver {r : Round} {ev : Event} : Touched k W (W.deliver h r k ev) := by
  have hstep :
      Touched k W (W.modify k fun b =>
      { b with nas := step b.ctx b.nas (r.now, ev), started := true }) :=
    touched_modify fun _ => ⟨rfl, rfl⟩
  unfold deliver
  dsimp only
  split
  · exact hstep.trans touched_radiusOpen
  · exact hstep

/-- **A block without the flag** may be touched. -/
theorem Touched.inv (ht : Touched k W W') (hk : ∀ b : Block, W.nwcbs[k]? = some b → b.error = false)
    (hW : W.Inv) (hout : W.Outside set) : W'.Inv ∧ W'.Outside set := by
  have hflag : ∀ (j : Nat) (b : Block), W'.nwcbs[j]? = some b → b.error = true →
      W.nwcbs[j]? = some b := by
    intro j b hb he
    by_cases hj : j = k
    · subst hj
      obtain ⟨a, ha, herr, -⟩ := ht.self b hb
      rw [hk a ha] at herr
      cases he.symm.trans herr
    · rwa [ht.other j hj] at hb
  -- A descriptor was there before, or is the new one of the block that has been touched.
  have hback : ∀ (j : Nat) (b : Block) (fd : Nat), W'.nwcbs[j]? = some b → b.wan = some fd →
      (∃ a : Block, W.nwcbs[j]? = some a ∧ a.wan = some fd) ∨ (j = k ∧ W.Free k fd) := by
    intro j b fd hb hfd
    by_cases hj : j = k
    · subst hj
      obtain ⟨a, ha, -, hwan⟩ := ht.self b hb
      rcases hwan fd hfd with hsame | hfree
      · exact .inl ⟨a, ha, hsame⟩
      · exact .inr ⟨rfl, hfree⟩
    · rw [ht.other j hj] at hb
      exact .inl ⟨b, hb, hfd⟩
  refine ⟨⟨fun j b hb he => hW.idle j b (hflag j b hb he) he, fun j b fd hb hfd => ?_,
    fun i j a b fd ha hb hfa hfb => ?_⟩, fun j b fd hb he hfd =>
      hout j b fd (hflag j b hb he) he hfd⟩
  · rw [ht.eapd]
    rcases hback j b fd hb hfd with ⟨a, ha, hfa⟩ | ⟨-, hfree⟩
    · exact hW.eapd j a fd ha hfa
    · exact hfree.1
  · rcases hback i a fd ha hfa with ⟨a', ha', hfa'⟩ | ⟨rfl, hfree⟩
    · rcases hback j b fd hb hfb with ⟨b', hb', hfb'⟩ | ⟨rfl, hfree⟩
      · exact hW.wan i j a' b' fd ha' hb' hfa' hfb'
      · by_contra hne
        exact hfree.2 i a' hne ha' hfa'
    · rcases hback j b fd hb hfb with ⟨b', hb', hfb'⟩ | ⟨rfl, -⟩
      · by_contra hne
        exact hfree.2 j b' (Ne.symm hne) hb' hfb'
      · rfl

/-! ## A round -/

theorem getElem?_concat {α : Type} {l : List α} {a x : α} {j : Nat} (hx : (l ++ [a])[j]? = some x) :
    l[j]? = some x ∨ (j = l.length ∧ x = a) := by
  rcases lt_or_ge j l.length with hj | hj
  · rw [List.getElem?_append_left hj] at hx
    exact .inl hx
  · rw [List.getElem?_append_right hj] at hx
    have hzero : j - l.length = 0 := by
      by_contra hne
      rw [List.getElem?_singleton, if_neg hne] at hx
      cases hx
    rw [hzero] at hx
    cases hx
    exact .inr ⟨by omega, rfl⟩

theorem inv_append {b : Block} (n : Nat) (hidle : b.error = true → b.Idle)
    (hwan : ∀ fd, b.wan = some fd → fd ∉ W.held) (hset : ∀ fd ∈ set, fd ∈ W.held) (hW : W.Inv)
    (hout : W.Outside set) :
    Inv { W with nwcbs := W.nwcbs ++ [b], calls := n } ∧
    Outside { W with nwcbs := W.nwcbs ++ [b], calls := n } set := by
  have hfree : ∀ fd, b.wan = some fd → W.eapd ≠ some fd
      ∧ ∀ (j : Nat) (a : Block), W.nwcbs[j]? = some a → a.wan ≠ some fd := by
    intro fd hfd
    have hno := hwan fd hfd
    rw [mem_held, not_or] at hno
    exact ⟨hno.1, fun j a ha hfa => hno.2 ⟨j, a, ha, hfa⟩⟩
  refine ⟨⟨fun j x hx he => ?_, fun j x fd hx hfd => ?_, fun i j x y fd hx hy hfx hfy => ?_⟩,
    fun j x fd hx he hfd => ?_⟩
  · rcases getElem?_concat hx with hold | ⟨-, rfl⟩
    · exact hW.idle j x hold he
    · exact hidle he
  · rcases getElem?_concat hx with hold | ⟨-, rfl⟩
    · exact hW.eapd j x fd hold hfd
    · exact (hfree fd hfd).1
  · rcases getElem?_concat hx with hx' | ⟨hi, rfl⟩
    · rcases getElem?_concat hy with hy' | ⟨-, rfl⟩
      · exact hW.wan i j x y fd hx' hy' hfx hfy
      · exact absurd hfx ((hfree fd hfy).2 i x hx')
    · rcases getElem?_concat hy with hy' | ⟨hj, rfl⟩
      · exact absurd hfy ((hfree fd hfx).2 j y hy')
      · exact hi.trans hj.symm
  · rcases getElem?_concat hx with hold | ⟨-, rfl⟩
    · exact hout j x fd hold he hfd
    · exact fun hmem => hwan fd hfd (hset fd hmem)

theorem addNwcb_inv (info : Option Setup) (hset : ∀ fd ∈ set, fd ∈ W.held) (hW : W.Inv)
    (hout : W.Outside set) :
    (W.addNwcb h info).1.Inv ∧ (W.addNwcb h info).1.Outside set := by
  unfold addNwcb
  split
  · cases info with
    | none => exact ⟨hW, hout⟩
    | some s =>
        dsimp only
        split
        · refine inv_append _ nasInitBlock_idle (fun fd hfd => ?_) hset hW hout
          rw [nasInitBlock_wan] at hfd
          exact h.radiusOpen_fresh _ _ fd hfd
        · refine inv_append _ nasInitBlock_idle (fun fd hfd => ?_) hset hW hout
          rw [nasInitBlock_wan] at hfd
          cases hfd
  · exact ⟨hW, hout⟩

theorem addNwcb_flag {info : Option Setup} {b : Block}
    (hinfo : (W.nwcbs.length < wkspMaxNumInterfaces &&
      info.any fun s => (nasInitBlock h none s).error) = false)
    (hk : (W.addNwcb h info).2 = some k) (hb : (W.addNwcb h info).1.nwcbs[k]? = some b) :
    b.error = false := by
  have hend : ∀ x : Block, (W.nwcbs ++ [x])[W.nwcbs.length]? = some b → b = x := by
    intro x hx
    rcases getElem?_concat hx with hold | ⟨-, heq⟩
    · rw [List.getElem?_eq_none le_rfl] at hold
      cases hold
    · exact heq
  unfold addNwcb at hk hb
  split at hk
  · rename_i hroom
    rw [if_pos hroom] at hb
    cases info with
    | none => cases hk
    | some s =>
        simp only [hroom, decide_true, Option.any_some, Bool.true_and] at hinfo
        dsimp only at hk hb
        split at hk
        · rename_i hradius
          rw [if_pos hradius] at hb
          cases hk
          rw [hend _ hb, nasInitBlock_wan]
          exact hinfo
        · rename_i hradius
          rw [if_neg hradius] at hb
          cases hk
          rw [hend _ hb]
          exact hinfo
  · cases hk

/-- **The RADIUS sockets**: what is not in the set is not read. -/
theorem radiusBlock_inv (r : Round) (hW : W.Inv) (hout : W.Outside set) :
    (radiusBlock h r set W k).Inv ∧ (radiusBlock h r set W k).Outside set := by
  unfold radiusBlock
  cases hwan : (W.nwcbs[k]?).bind Block.wan with
  | none => exact ⟨hW, hout⟩
  | some fd =>
      dsimp only
      split
      · rename_i hready
        rw [Bool.and_eq_true, decide_eq_true_eq] at hready
        obtain ⟨b, hb, hfd⟩ := Option.bind_eq_some_iff.mp hwan
        have hflag : ∀ b : Block, W.nwcbs[k]? = some b → b.error = false := by
          intro b' hb'
          rw [hb] at hb'
          cases hb'
          by_contra herr
          exact hout k b fd hb (by simpa using herr) hfd hready.1
        cases r.radius fd with
        | none => exact touched_radiusOpen.inv hflag hW hout
        | some resp => exact touched_deliver.inv hflag hW hout
      · exact ⟨hW, hout⟩

theorem radiusLoop_inv (r : Round) (l : List Nat) : ∀ {W : Wksp}, W.Inv → W.Outside set →
    (l.foldl (radiusBlock h r set) W).Inv := by
  induction l with
  | nil => intro W hW _; exact hW
  | cons k l ih =>
      intro W hW hout
      obtain ⟨hW', hout'⟩ := radiusBlock_inv (h := h) (k := k) r hW hout
      exact ih hW' hout'

/-- The packet is dispatched to a block with the error flag, be it one that is only set up now. -/
def toFlagged (W : Wksp) (h : Host) (info : Option Setup) (p : EapdPacket) : Bool :=
  p.event.isSome && match W.findNwcb p.mac p.osifname with
    | some k => (W.nwcbs[k]?).any Block.error
    | none => W.nwcbs.length < wkspMaxNumInterfaces && info.any fun s =>
      (nasInitBlock h none s).error

theorem eapdPacket_inv {r : Round} {p : EapdPacket} (hp : W.toFlagged h r.info p = false)
    (hset : ∀ fd ∈ set, fd ∈ W.held) (hW : W.Inv) (hout : W.Outside set) :
    (W.eapdPacket h r p).Inv ∧ (W.eapdPacket h r p).Outside set := by
  unfold eapdPacket
  unfold toFlagged at hp
  cases hfind : W.findNwcb p.mac p.osifname with
  | some k =>
      rw [hfind] at hp
      cases hev : p.event with
      | none => exact ⟨hW, hout⟩
      | some ev =>
          simp only [hev, Option.isSome_some, Bool.true_and] at hp
          refine touched_deliver.inv (fun b hb => ?_) hW hout
          rwa [hb] at hp
  | none =>
      rw [hfind] at hp
      obtain ⟨hW', hout'⟩ := addNwcb_inv (h := h) r.info hset hW hout
      have hflag := fun (k : Nat) (b : Block) => @addNwcb_flag W h k r.info b
      generalize W.addNwcb h r.info = found at hW' hout' hflag ⊢
      obtain ⟨W', k⟩ := found
      cases k with
      | none => exact ⟨hW', hout'⟩
      | some k =>
          cases hev : p.event with
          | none => exact ⟨hW', hout'⟩
          | some ev =>
              simp only [hev, Option.isSome_some, Bool.true_and] at hp
              exact touched_deliver.inv (fun b hb => hflag k b hp rfl hb) hW' hout'

theorem fdset_held : ∀ fd ∈ W.fdset, fd ∈ W.held := by
  intro fd hfd
  rw [fdset, List.mem_append, List.mem_filterMap] at hfd
  rw [held, List.mem_append, List.mem_filterMap]
  rcases hfd with heapd | ⟨b, hb, hwan⟩
  · exact .inl heapd
  · exact .inr ⟨b, List.mem_of_mem_filter hb, hwan⟩

theorem Inv.outside (hW : W.Inv) : W.Outside W.fdset := by
  intro k b fd hb he hfd hmem
  rw [fdset, List.mem_append, Option.mem_toList, List.mem_filterMap] at hmem
  rcases hmem with heapd | ⟨a, ha, hwan⟩
  · exact hW.eapd k b fd hb hfd heapd
  · obtain ⟨ha, hflag⟩ := List.mem_filter.mp ha
    obtain ⟨j, hj⟩ := List.mem_iff_getElem?.mp ha
    rw [hW.wan j k a b fd hj hb hwan hfd, hb] at hj
    cases hj
    rw [he] at hflag
    cases hflag

/-- A packet of `eapd` that is dispatched in this step is dispatched to a flagged block. -/
def reachesFlagged (W : Wksp) (h : Host) : WkspEvent → Bool
  | .round r =>
    match W.eapd, r.packet with
    | some fd, some p => r.ready fd && W.toFlagged h r.info p
    | _, _ => false
  | _ => false

/-- **A round** in which no packet reaches a flagged block. -/
theorem dispatchPacket_inv {r : Round} (hr : W.reachesFlagged h (.round r) = false) (hW : W.Inv) :
    (W.dispatchPacket h r).Inv := by
  unfold dispatchPacket
  unfold reachesFlagged at hr
  dsimp only at hr ⊢
  split
  · exact ⟨hW.idle, hW.eapd, hW.wan⟩
  · cases heapd : W.eapd with
    | none => exact radiusLoop_inv r _ hW hW.outside
    | some fd =>
        cases hpacket : r.packet with
        | none => exact radiusLoop_inv r _ hW hW.outside
        | some p =>
            simp only [heapd, hpacket] at hr
            dsimp only
            split
            · rename_i hready
              rw [hready, Bool.true_and] at hr
              obtain ⟨hW', hout'⟩ := eapdPacket_inv hr fdset_held hW hW.outside
              exact radiusLoop_inv r _ hW' hout'
            · exact radiusLoop_inv r _ hW hW.outside

end Wksp

/-! ## Runs -/

theorem Wksp.Inv.moved {W W' : Wksp} (hW : W.Inv) (heapd : W'.eapd = W.eapd)
    (hmoved : ∀ (j : Nat) (b' : Block), W'.nwcbs[j]? = some b' → ∃ b, W.nwcbs[j]? = some b
      ∧ b'.error = b.error ∧ b'.wan = b.wan ∧ (b.Idle → b'.Idle)) : W'.Inv := by
  refine ⟨fun j b' hb' he => ?_, fun j b' fd hb' hfd => ?_, fun i j a' b' fd ha' hb' hfa hfb => ?_⟩
  · obtain ⟨b, hb, herr, -, hidle⟩ := hmoved j b' hb'
    exact hidle (hW.idle j b hb (herr ▸ he))
  · obtain ⟨b, hb, -, hwan, -⟩ := hmoved j b' hb'
    rw [heapd]
    exact hW.eapd j b fd hb (hwan ▸ hfd)
  · obtain ⟨a, ha, -, hwa, -⟩ := hmoved i a' ha'
    obtain ⟨b, hb, -, hwb, -⟩ := hmoved j b' hb'
    exact hW.wan i j a b fd ha hb (hwa ▸ hfa) (hwb ▸ hfb)

theorem Block.Idle.timer {b : Block} {ev : Event} (h : b.Idle) (now : Nat) :
    Idle (if ev.isTimer &&
      (b.started || ev.isGtkTimer) then { b with nas := step b.ctx b.nas (now, ev) } else b) := by
  split
  · rename_i hfires
    rw [h.started, Bool.false_or, Bool.and_eq_true] at hfires
    have hgtk : ev = .gtkTimer := by
      cases ev with
      | gtkTimer => rfl
      | _ => cases hfires.2
    exact h.rekey now (.inr hgtk)
  · exact h

theorem wkspStep_inv {h : Host} {W : Wksp} {e : WkspEvent} (he : W.reachesFlagged h e = false)
    (hW : W.Inv) :
    (wkspStep h W e).Inv := by
  cases e with
  | round r =>
      by_cases hdown : W.shutdown = true
      · rw [wkspStep, if_pos hdown]
        exact hW
      · rw [wkspStep, if_neg hdown]
        exact Wksp.dispatchPacket_inv he hW
  | timer k now ev =>
      refine hW.moved rfl fun j b' hb' => ?_
      by_cases hj : j = k
      · subst hj
        obtain ⟨b, hb, rfl⟩ := Wksp.modify_self hb'
        refine ⟨b, hb, ?_, ?_, fun hidle => hidle.timer now⟩
        · split
          · rfl
          · rfl
        · split
          · rfl
          · rfl
      · exact ⟨b', (Wksp.modify_other _ hj).symm.trans hb', rfl, rfl, fun hidle => hidle⟩
  | rekey now =>
      refine hW.moved rfl fun j b' hb' => ?_
      obtain ⟨b, hb, rfl⟩ := Option.map_eq_some_iff.mp (List.getElem?_map.symm.trans hb')
      exact ⟨b, hb, rfl, rfl, fun hidle => hidle.rekey now (.inl rfl)⟩

/-- No station of a block with the error flag has been authorized. -/
def FailClosed (W : Wksp) : Prop :=
  ∀ b ∈ W.nwcbs, b.error = true → ∀ ea, Out.authorize ea ∉ b.nas.log

theorem initWksp_inv (h : Host) (eapd : Option Nat) (setups : List Setup) :
    (initWksp h eapd setups).Inv := by
  have hadd : ∀ (l : List Setup) (W : Wksp), W.Inv →
      (l.foldl (fun W s => (W.addNwcb h (some s)).1) W).Inv := by
    intro l
    induction l with
    | nil => intro W hW; exact hW
    | cons s l ih =>
        intro W hW
        exact ih _ (Wksp.addNwcb_inv (some s) Wksp.fdset_held hW hW.outside).1
  refine hadd setups _ ⟨fun k b hb => ?_, fun k b fd hb => ?_, fun j k a b fd hb => ?_⟩
  all_goals cases hb

/-- **Fail closed**: no station of an interface with an invalid configuration is authorized, as long
as no packet of `eapd` is dispatched to its control block. -/
theorem fail_closed (h : Host) (eapd : Option Nat) (setups : List Setup) (es : List WkspEvent)
    (hes : Along (wkspStep h) (fun W e => W.reachesFlagged h e = false)
      (initWksp h eapd setups) es) :
    FailClosed (run (wkspStep h) (initWksp h eapd setups) es) := by
  have hinv := run_invariant (I := Wksp.Inv) (fun W e hW he => wkspStep_inv he hW)
    (initWksp_inv h eapd setups) hes
  intro b hb herr
  obtain ⟨k, hk⟩ := List.mem_iff_getElem?.mp hb
  exact (hinv.idle k b hk herr).log

/-! ## Concrete interfaces -/

/-- A host that opens no sockets to a RADIUS server. -/
def plainHost : Host where
  crypto := bcmcrypto
  passhash := fun _ _ => none
  radiusOpen := fun _ _ => none
  radiusOpen_fresh := by simp

/-- An interface for WPA2 with a pre-shared key, at an address that ends in `n`. -/
def pskSetup (n : UInt8) (psk : Bytes) : Setup where
  interface := [0x77, 0x6c, n]
  role := .authenticator
  wds := false
  mode := wpa2Psk
  wsec := aesEnabled
  ea := [2, 0, 0, 0, 0, n]
  remote := []
  psk := psk
  ssid := [0x61]
  wep := []
  index := 0
  gtkRekeySecs := 3600
  ssnTo := 36000
  disablePreauth := false
  flagged := false
  drv := calmDriver

/-- A pre-shared key of 64 characters that are no digits. -/
def badSetup : Setup := pskSetup 1 (List.replicate 64 0x7a)

/-- One of 64 digits. -/
def goodSetup : Setup := pskSetup 2 (List.replicate 64 0x31)

/-- What `eapd` makes of an event for an interface. -/
def eapdFor (b : Block) : Event → EapdPacket
  | .eapol f => .eapol b.interface f
  | ev => .brcmevent b.interface b.ctx.cfg.ea (some ev)

def eapdRound (b : Block) (ev : Event) : WkspEvent :=
  .round
    { now := 1
      packet := some (eapdFor b ev)
      info := none
      ready := fun _ => true
      radius := fun _ => none
      reopened := fun _ => false }

/-- A station associates with the interface, and answers messages 1 and 3. -/
def joinRounds (s : Setup) : List WkspEvent :=
  let b := nasInitBlock plainHost none s
  (script b.ctx b.nas (joinScript b.ctx)).map fun e => eapdRound b e.2

set_option maxRecDepth 100000 in
theorem fail_closed_beside : FailClosed (run (wkspStep plainHost)
    (initWksp plainHost (some 3) [badSetup, goodSetup]) (joinRounds goodSetup)) := by
  refine fail_closed plainHost (some 3) [badSetup, goodSetup] (joinRounds goodSetup) ?_
  rw [joinRounds, plainHost, bcmcrypto_eq_packed]
  decide +kernel

set_option maxRecDepth 100000 in
/-- **A key that is not hexadecimal**: the PMK is zero, the block is flagged, and a station that
knows this is authorized. -/
theorem flagged_authorizes :
    ¬∀ (h : Host) (eapd : Option Nat) (setups : List Setup) (es : List WkspEvent),
    FailClosed (run (wkspStep h) (initWksp h eapd setups) es) := by
  intro hclosed
  have hrun := hclosed plainHost (some 3) [badSetup] (joinRounds badSetup)
  have hblock :
      ((run (wkspStep plainHost) (initWksp plainHost (some 3) [badSetup])
      (joinRounds badSetup)).nwcbs[0]?).any
      (fun b => b.error && decide (Out.authorize [2, 0, 0, 0, 0, 9] ∈ b.nas.log)) = true := by
    rw [joinRounds, plainHost, bcmcrypto_eq_packed]
    decide +kernel
  generalize run (wkspStep plainHost) (initWksp plainHost (some 3) [badSetup])
    (joinRounds badSetup) = W
    at hrun hblock
  cases hb : W.nwcbs[0]? with
  | none =>
      rw [hb] at hblock
      cases hblock
  | some b =>
      rw [hb, Option.any_some, Bool.and_eq_true, decide_eq_true_eq] at hblock
      exact hrun b (List.mem_of_getElem? hb) hblock.1 _ hblock.2

end BroadcomWl.Nas
