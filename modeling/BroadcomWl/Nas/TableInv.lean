import Mathlib
import BroadcomWl.Lib.SlotTable
import BroadcomWl.Nas.Table

/-!
# The station table is a map

**`station_table`**: after any sequence of calls, every chain ends, the chains hold exactly the
slots in use, each once and in the bucket of its address, no two of them have the same address, and
`lookup_sta` finds a station just in case it was entered and not tossed since. And each call does
what it is for: one that may enter finds the station, or puts it into a free slot or that of the
least recently used station, or finds every slot taken; a tossed slot becomes free.

The invariant is that of a hash table in an array of slots (`Lib.Threaded`, `Lib.Known`); each
function of the table is one of its rules. The functions of `Station` do the same to their lists,
which connects the two models (`tossSta_refines`, `cleanupSta_refines`, `lookupSta_refines`). -/

namespace BroadcomWl.Nas

open BroadcomWl.Lib

/-! ## The table -/

/-- The links thread the chains, and the chains hold the slots in use. -/
abbrev Represents (t : Table) (chains : Slot → List Slot) : Prop :=
  Threaded paeHash (fun i => (t.sta i).used) (fun i => (t.sta i).ea) t.next t.staHashed chains

theorem card_slot : Fintype.card Slot ≤ maxSupplicants := by
  rw [Fintype.card_fin]

theorem Table.updSta_field {β : Type} (t : Table) (i : Slot) (f : Sta → Sta) (field : Sta → β)
    (h : field (f (t.sta i)) = field (t.sta i)) (j : Slot) :
    field ((t.updSta i f).sta j) = field (t.sta j) := by
  by_cases hji : j = i
  · subst hji
    simpa [Table.updSta] using h
  · simp [Table.updSta, hji]

/-- A change of a station that leaves its address and its mark of use alone. -/
theorem Represents.updSta {t : Table} {chains : Slot → List Slot} (h : Represents t chains)
    (i : Slot) (f : Sta → Sta) (hused : (f (t.sta i)).used = (t.sta i).used)
    (hea : (f (t.sta i)).ea = (t.sta i).ea) : Represents (t.updSta i f) chains :=
  h.congr (t.updSta_field i f Sta.used hused) (t.updSta_field i f Sta.ea hea)

/-- The station that `toss_sta` leaves behind. -/
def tossedSta (s : Sta) : Sta := { s with td := none, retxExceedHndlr := false, used := false }

/-- **`toss_sta`** ends, and takes the slot out of its chain. -/
theorem Represents.tossSta {t : Table} {chains : Slot → List Slot} (h : Represents t chains)
    (i : Slot) :
    ∃ t', t.tossSta i = some t' ∧
      Represents t' (Function.update chains (paeHash (t.sta i).ea)
        ((chains (paeHash (t.sta i).ea)).erase i)) ∧
      t'.sta = Function.update t.sta i (tossedSta (t.sta i)) ∧
      t'.log = if (t.sta i).used then .release (t.sta i).ea :: t.log else t.log := by
  have hstop : ((t.stopRetx i).sta i).ea = (t.sta i).ea := by simp [Table.stopRetx, Table.updSta]
  have hused : ((t.stopRetx i).sta i).used = (t.sta i).used := by
    simp [Table.stopRetx, Table.updSta]
  obtain ⟨next', head', hunlink, hkept⟩ := h.remove card_slot i
  have hlinks : unlink maxSupplicants (t.stopRetx i).next
      ((t.stopRetx i).staHashed (paeHash (t.sta i).ea)) i = some (next', head') := hunlink
  simp only [Table.tossSta, hstop, hused, hlinks, Option.map_some]
  refine ⟨_, rfl, hkept ?_ ?_ ?_, ?_, rfl⟩
  · simp [Table.updSta]
  · intro j hj
    simp [Table.updSta, Table.stopRetx, hj]
  · intro j hj
    simp [Table.updSta, Table.stopRetx, hj]
  · funext j
    by_cases hji : j = i
    · subst hji
      simp [Table.updSta, Table.stopRetx, tossedSta]
    · simp [Table.updSta, Table.stopRetx, hji]

theorem newSta_used (c : Ctx) (ea : Bytes) (now : Nat) : (newSta c ea now).used = true := by
  simp only [newSta]
  split <;> split <;> rfl

theorem newSta_ea (c : Ctx) (ea : Bytes) (now : Nat) : (newSta c ea now).ea = ea := by
  simp only [newSta]
  split <;> split <;> rfl

/-- **A slot is entered** at the head of its chain. -/
theorem Represents.enterSta {t : Table} {chains : Slot → List Slot} (h : Represents t chains)
    (c : Ctx) {ea : Bytes} (now : Nat) {i : Slot} (hfree : (t.sta i).used = false)
    (hnew : ∀ j, (t.sta j).used = true → (t.sta j).ea ≠ ea) :
    Represents (t.enterSta c ea now i)
      (Function.update chains (paeHash ea) (i :: chains (paeHash ea))) := by
  apply h.enter hfree hnew
  · simp [Table.enterSta, newSta_used]
  · simp [Table.enterSta, newSta_ea]
  · intro j hj
    simp [Table.enterSta, hj]
  · intro j hj
    simp [Table.enterSta, hj]

theorem scan_eq_pick (sta : Slot → Sta) (l : List Slot) (oldest : Nat) (old : Option Slot) :
    Table.scan sta l oldest old =
      pick (fun i => (sta i).used) (fun i => (sta i).lastUse) l oldest old := by
  induction l generalizing oldest old with
  | nil => rfl
  | cons i l ih => simp only [Table.scan, pick, ih]

/-! ## The invariant -/

/-- **The invariant of the station table.** -/
structure TableInv (t : Table) : Prop where
  chains : ∃ chains, Represents t chains
  /-- A slot that is not in use has no retransmission timer. -/
  timers : ∀ i, (t.sta i).used = false → (t.sta i).td = none
  /-- The stations in use are those that were entered and not tossed since. -/
  known : Known (fun i => (t.sta i).used) (fun i => (t.sta i).ea) t.log

namespace TableInv

variable {t : Table} {c : Ctx}

theorem zero : TableInv Table.zero where
  chains := by
    refine ⟨fun _ => [], ⟨⟨fun _ => List.nodup_nil, ?_, ?_⟩, fun _ => trivial⟩⟩
    · intro b i
      simp [Table.zero, Sta.zero]
    · intro i j hi
      cases hi
  timers := fun _ _ => rfl
  known := by
    intro ea
    refine ⟨False.elim, ?_⟩
    rintro ⟨i, hi, -⟩
    cases hi

/-- A change of a station in use that leaves its address alone, or of any station that leaves its
timer alone or stops it. -/
theorem updSta (h : TableInv t) (i : Slot) (f : Sta → Sta)
    (hused : (f (t.sta i)).used = (t.sta i).used) (hea : (f (t.sta i)).ea = (t.sta i).ea)
    (htd : (t.sta i).used = false → (f (t.sta i)).td = none) : TableInv (t.updSta i f) where
  chains := by
    obtain ⟨chains, hrep⟩ := h.chains
    exact ⟨chains, hrep.updSta i f hused hea⟩
  timers := by
    intro j hj
    by_cases hji : j = i
    · subst hji
      simp only [Table.updSta, Function.update_self] at hj ⊢
      exact htd (hused ▸ hj)
    · simp only [Table.updSta, Function.update_of_ne hji] at hj ⊢
      exact h.timers j hj
  known := h.known.congr (t.updSta_field i f Sta.used hused) (t.updSta_field i f Sta.ea hea)

theorem stopRetx (h : TableInv t) (i : Slot) : TableInv (t.stopRetx i) :=
  h.updSta i _ rfl rfl fun _ => rfl

/-- **`toss_sta`.** -/
theorem tossSta (h : TableInv t) (i : Slot) :
    ∃ t', t.tossSta i = some t' ∧ TableInv t' ∧
      t'.sta = Function.update t.sta i (tossedSta (t.sta i)) ∧
      t'.log = if (t.sta i).used then .release (t.sta i).ea :: t.log else t.log := by
  obtain ⟨chains, hrep⟩ := h.chains
  obtain ⟨t', htoss, hrep', hsta, hlog⟩ := hrep.tossSta i
  refine ⟨t', htoss, ⟨⟨_, hrep'⟩, ?_, ?_⟩, hsta, hlog⟩
  · intro j hj
    rw [hsta] at hj ⊢
    by_cases hji : j = i
    · rw [hji, Function.update_self]
      rfl
    · rw [Function.update_of_ne hji] at hj ⊢
      exact h.timers j hj
  · rw [hsta, hlog]
    cases hused : (t.sta i).used with
    | false =>
        apply h.known.remove_free hused
        · simp [tossedSta]
        · intro j hj
          simp [hj]
        · intro j hj
          simp [hj]
    | true =>
        apply h.known.remove hused
        · simp [tossedSta]
        · intro j hj hjea
          exact hrep.bucketed.distinct j i hj hused hjea
        · intro j hj
          simp [hj]
        · intro j hj
          simp [hj]

theorem enterSta (h : TableInv t) (ea : Bytes) (now : Nat) {i : Slot}
    (hfree : (t.sta i).used = false) (hnew : ∀ j, (t.sta j).used = true → (t.sta j).ea ≠ ea) :
    TableInv (t.enterSta c ea now i) where
  chains := by
    obtain ⟨chains, hrep⟩ := h.chains
    exact ⟨_, hrep.enterSta c now hfree hnew⟩
  timers := by
    intro j hj
    by_cases hji : j = i
    · rw [hji] at hj
      simp [Table.enterSta, newSta_used] at hj
    · simp only [Table.enterSta, Function.update_of_ne hji] at hj ⊢
      exact h.timers j hj
  known := by
    apply h.known.enter hfree
    · simp [Table.enterSta, newSta_used]
    · simp [Table.enterSta, newSta_ea]
    · intro j hj
      simp [Table.enterSta, hj]
    · intro j hj
      simp [Table.enterSta, hj]

/-- The station is removed, or just changed. -/
structure Cleaned (t : Table) (i : Slot) (keeps : Bool) (t' : Table) : Prop where
  used : (t'.sta i).used = ((t.sta i).used && keeps)
  ea : (t'.sta i).ea = (t.sta i).ea
  others : ∀ j, j ≠ i → t'.sta j = t.sta j
  log : t'.log = if (t.sta i).used && !keeps then .release (t.sta i).ea :: t.log else t.log

/-- `cleanup_sta` respects the cached PMK of the station. -/
def holdsPmk (s : Sta) : Bool := has s.mode wpa2 && s.pae.state = .authenticated && s.pae.ssnto != 0

theorem cleanupTail (h : TableInv t) (i : Slot) (auth : Bool) :
    ∃ t', t.cleanupTail i auth = some t' ∧ TableInv t' ∧
      Cleaned t i (holdsPmk (t.sta i) || auth) t' := by
  have hstop := h.stopRetx i
  have hsta : (t.stopRetx i).sta i = { t.sta i with td := none, retxExceedHndlr := false } := by
    simp [Table.stopRetx, Table.updSta]
  have hother : ∀ j, j ≠ i → (t.stopRetx i).sta j = t.sta j := by
    intro j hj
    simp [Table.stopRetx, Table.updSta, hj]
  simp only [Table.cleanupTail, hsta]
  split
  · rename_i hkeep
    have hpmk : holdsPmk (t.sta i) = true := hkeep
    refine ⟨_, rfl, hstop.updSta i _ rfl rfl (hstop.timers i), ?_⟩
    rw [hpmk, Bool.true_or]
    refine ⟨?_, ?_, fun j hj => ?_, ?_⟩
    · simp [Table.updSta, Table.stopRetx]
    · simp [Table.updSta, Table.stopRetx]
    · simp [Table.updSta, Table.stopRetx, hj]
    · simp [Table.updSta, Table.stopRetx]
  · rename_i hkeep
    have hpmk : holdsPmk (t.sta i) = false := eq_false_of_ne_true hkeep
    rw [hpmk, Bool.false_or]
    cases auth with
    | false =>
        obtain ⟨t', htoss, hinv, hsta', hlog⟩ := hstop.tossSta i
        refine ⟨t', htoss, hinv, ?_, ?_, fun j hj => ?_, ?_⟩
        · simp [hsta', tossedSta]
        · simp [hsta', hsta, tossedSta]
        · rw [hsta', Function.update_of_ne hj, hother j hj]
        · rw [hlog, hsta, Bool.not_false, Bool.and_true]
          rfl
    | true =>
        refine ⟨_, rfl, hstop, ?_, ?_, hother, ?_⟩
        · rw [hsta, Bool.and_true]
        · rw [hsta]
        · rw [Bool.not_true, Bool.and_false]
          rfl

/-- **`cleanup_sta`** gives a station up unless it has a cached PMK, or is the peer on a WDS link of
an authenticator. -/
theorem cleanupSta (h : TableInv t) (i : Slot) (driverSignal : Bool) :
    ∃ t', t.cleanupSta c i driverSignal = some t' ∧ TableInv t' ∧
      Cleaned t i (holdsPmk (t.sta i) ||
        (c.cfg.wds && decide (c.cfg.role = .authenticator))) t' := by
  simp only [Table.cleanupSta]
  split
  · have hinv : TableInv (t.updSta i fun s => { s with state := .disconnected }) :=
      h.updSta i _ rfl rfl (h.timers i)
    obtain ⟨t', htail, hinv', hcleaned⟩ :=
      hinv.cleanupTail i (c.cfg.wds && decide (c.cfg.role = .authenticator))
    have hsta : (t.updSta i fun s => { s with state := .disconnected }).sta i =
        { t.sta i with state := .disconnected } := by
      simp [Table.updSta]
    refine ⟨t', htail, hinv', ?_, ?_, fun j hj => ?_, ?_⟩
    · rw [hcleaned.used, hsta]
      rfl
    · rw [hcleaned.ea, hsta]
    · rw [hcleaned.others j hj]
      simp [Table.updSta, hj]
    · rw [hcleaned.log, hsta]
      rfl
  · exact h.cleanupTail i _

/-- **A search finds just the stations in the table.** -/
theorem search (h : TableInv t) (ea : Bytes) :
    ∃ r, walk t.next (fun i => (t.sta i).ea = ea) maxSupplicants (t.staHashed (paeHash ea)) =
        some r ∧
      ∀ i, r = some i ↔ (t.sta i).used = true ∧ (t.sta i).ea = ea := by
  obtain ⟨chains, hrep⟩ := h.chains
  exact Threaded.search hrep card_slot ea

theorem lookupSta_search (h : TableInv t) (ea : Bytes) (now : Nat) :
    ∃ t' r, t.lookupSta c ea false now = some (t', r) ∧ TableInv t' ∧ t'.log = t.log ∧
      (∀ i, (t'.sta i).used = (t.sta i).used ∧ (t'.sta i).ea = (t.sta i).ea) ∧
      ∀ i, r = some i ↔ (t.sta i).used = true ∧ (t.sta i).ea = ea := by
  obtain ⟨r, hwalk, hfound⟩ := h.search ea
  simp only [Table.lookupSta, hwalk]
  cases r with
  | some i =>
      refine ⟨_, _, rfl, h.updSta i _ rfl rfl (h.timers i), rfl, fun j => ⟨?_, ?_⟩, hfound⟩
      · exact t.updSta_field i (fun s => { s with lastUse := now }) Sta.used rfl j
      · exact t.updSta_field i (fun s => { s with lastUse := now }) Sta.ea rfl j
  | none => exact ⟨_, _, rfl, h, rfl, fun _ => ⟨rfl, rfl⟩, hfound⟩

/-- A lookup has entered the station, or found it. -/
abbrev StaEntered (t : Table) (ea : Bytes) (now : Nat) (t' : Table) (r : Option Slot) : Prop :=
  Entered (fun i => (t.sta i).used) (fun i => (t.sta i).ea) (fun i => (t.sta i).lastUse)
    t.log ea now
    (fun i => (t'.sta i).used) (fun i => (t'.sta i).ea) t'.log r

/-- **`lookup_sta`** ends. It finds a station that is in the table, and otherwise enters it or has
no slot for it. -/
theorem lookupSta (h : TableInv t) (ea : Bytes) (now : Nat) :
    ∃ t' r, t.lookupSta c ea true now = some (t', r) ∧ TableInv t' ∧ StaEntered t ea now t' r ∧
      ∀ j, r ≠ some j → t'.sta j = t.sta j := by
  obtain ⟨r, hwalk, hfound⟩ := h.search ea
  simp only [Table.lookupSta, hwalk]
  cases r with
  | some i =>
      obtain ⟨hin, hea⟩ := (hfound i).mp rfl
      refine ⟨_, _, rfl, h.updSta i _ rfl rfl (h.timers i), .found hin hea ?_ ?_ rfl,
        fun j hj => ?_⟩
      · simpa [Table.updSta] using hin
      · simpa [Table.updSta] using hea
      · have hji : j ≠ i := fun heq => hj (congrArg some heq.symm)
        simp [Table.updSta, hji]
  | none =>
      have hnew : ∀ j, (t.sta j).used = true → (t.sta j).ea ≠ ea := fun j hj hjea =>
        absurd ((hfound j).mpr ⟨hj, hjea⟩) (by simp)
      have hentered : ∀ (t₁ : Table) (i : Slot), ((t₁.enterSta c ea now i).sta i).used = true ∧
          ((t₁.enterSta c ea now i).sta i).ea = ea := by
        intro t₁ i
        simp [Table.enterSta, newSta_used, newSta_ea]
      simp only [Bool.not_true, Bool.false_eq_true, if_false]
      cases hscan : Table.scan t.sta slots now none with
      | none =>
          rw [scan_eq_pick] at hscan
          obtain ⟨-, hall⟩ := pick_none hscan
          refine ⟨_, _, rfl, h, .full hnew (fun j => hall j (List.mem_finRange j)) rfl,
            fun _ _ => rfl⟩
      | some ie =>
          obtain ⟨i, evict⟩ := ie
          rw [scan_eq_pick] at hscan
          cases evict with
          | false =>
              have hfree := pick_free hscan
              refine ⟨_, _, rfl, h.enterSta ea now hfree hnew,
                .free hnew hfree (hentered t i).1 (hentered t i).2 rfl, fun j hj => ?_⟩
              have hji : j ≠ i := fun heq => hj (congrArg some heq.symm)
              simp [Table.enterSta, hji]
          | true =>
              -- the least recently used station makes room
              obtain ⟨hleast, -, hold⟩ := pick_used hscan (by rintro j ⟨⟩)
              obtain ⟨t₁, htoss, h₁, hsta, hlog⟩ := h.tossSta i
              obtain ⟨hfree, hnew'⟩ := vacated Sta.used Sta.ea hsta rfl hnew
              simp only [if_true, htoss, Option.map_some]
              refine ⟨_, _, rfl, h₁.enterSta ea now hfree hnew',
                .evicted hnew (fun j => hleast j (List.mem_finRange j)) (hold rfl) (hentered t₁ i).1
                  (hentered t₁ i).2 ?_, fun j hj => ?_⟩
              · show Access.alloc ea :: t₁.log = _
                rw [hlog, if_pos (hleast i (List.mem_finRange i)).1]
              · have hji : j ≠ i := fun heq => hj (congrArg some heq.symm)
                simp [Table.enterSta, hji, hsta]

/-- **Every call ends and keeps the invariant.** -/
theorem step (h : TableInv t) (call : Table.Call) :
    ∃ t', Table.step c (some t) call = some t' ∧ TableInv t' := by
  cases call with
  | lookupSta ea enter now =>
      cases enter with
      | false =>
          obtain ⟨t', r, hlookup, hinv, -⟩ := h.lookupSta_search (c := c) ea now
          exact ⟨t', by simp only [Table.step, hlookup, Option.map_some], hinv⟩
      | true =>
          obtain ⟨t', r, hlookup, hinv, -⟩ := h.lookupSta (c := c) ea now
          exact ⟨t', by simp only [Table.step, hlookup, Option.map_some], hinv⟩
  | tossSta i =>
      obtain ⟨t', htoss, hinv, -⟩ := h.tossSta i
      exact ⟨t', htoss, hinv⟩
  | cleanupSta i driverSignal =>
      obtain ⟨t', hcleanup, hinv, -⟩ := h.cleanupSta (c := c) i driverSignal
      exact ⟨t', hcleanup, hinv⟩
  | write i s =>
      simp only [Table.step]
      split
      · rename_i hused
        refine ⟨_, rfl, h.updSta i _ hused.symm rfl ?_⟩
        intro hfree
        rw [hused] at hfree
        cases hfree
      · exact ⟨t, rfl, h⟩

theorem run (calls : List Table.Call) :
    ∃ t, Lib.run (Table.step c) (some Table.zero) calls = some t ∧ TableInv t := by
  refine run_kept (I := fun s => ∃ t, s = some t ∧ TableInv t) ?_ calls ⟨_, rfl, zero⟩
  rintro s call ⟨t, rfl, h⟩
  exact h.step call

end TableInv

/-! ## The chains of `Station` -/

/-- The links thread the chains of an instance, and both have the same stations. -/
structure Threads (t : Table) (w : World) : Prop where
  sta : t.sta = w.sta
  represents : Represents t w.staHashed

section Refines

variable {c : Ctx} {t : Table} {w : World}

theorem Threads.congr {w' : World} (h : Threads t w) (hsta : w'.sta = w.sta)
    (hchains : w'.staHashed = w.staHashed) : Threads t w' where
  sta := by rw [hsta, h.sta]
  represents := by rw [hchains]; exact h.represents

theorem Threads.updSta (h : Threads t w) (i : Slot) (f : Sta → Sta)
    (hused : (f (w.sta i)).used = (w.sta i).used) (hea : (f (w.sta i)).ea = (w.sta i).ea) :
    Threads (t.updSta i f) (w.updSta i f) where
  sta := by
    rw [← h.sta] at hused hea
    simp only [Table.updSta, World.updSta, h.sta]
  represents := by
    rw [← h.sta] at hused hea
    exact h.represents.updSta i f hused hea

theorem nasDeauthenticate_table (ea : Bytes) (reason : Nat) :
    wp (nasDeauthenticate c ea reason)
      (fun _ w' => w'.sta = w.sta ∧ w'.staHashed = w.staHashed) (fun _ _ => False) w := by
  simp only [nasDeauthenticate, nasSetKey, wp_bind, wp_oracle, wp_emit, wp_pure]
  exact ⟨rfl, rfl⟩

/-- **`toss_sta`** with links is `tossSta` on lists. -/
theorem tossSta_refines (h : Threads t w) (i : Slot) (reason : Nat) (driverSignal : Bool) :
    ∃ t', t.tossSta i = some t' ∧
      wp (tossSta c i reason driverSignal) (fun _ w' => Threads t' w') (fun _ _ => False) w := by
  obtain ⟨t', htoss, hrep, hsta, -⟩ := h.represents.tossSta i
  rw [h.sta] at hrep hsta
  refine ⟨t', htoss, ?_⟩
  -- what follows the call of the driver
  have hend : ∀ w', w'.sta = w.sta → w'.staHashed = w.staHashed →
      wp (do
        wpaStopRetx i
        modify fun w' => w'.setChain (paeHash (w.sta i).ea)
          ((w'.staHashed (paeHash (w.sta i).ea)).erase i)
        modSta i fun s => { s with used := false }
        emit (.toss i (w.sta i).ea))
      (fun _ w' => Threads t' w') (fun _ _ => False) w' := by
    intro w' hsta' hchains'
    simp only [wpaStopRetx, wp_bind, wp_modSta, wp_modify, wp_emit]
    constructor
    · simp [hsta, tossedSta, World.updSta, World.out, World.setChain, hsta']
    · simpa [World.updSta, World.out, World.setChain, hchains'] using hrep
  simp only [tossSta, wp_bind, wp_getSta, wp_ite]
  refine ⟨fun _ => ?_, fun _ => ?_⟩
  · refine wp_mono (nasDeauthenticate_table _ _) (fun _ w' h' => ?_) (fun _ _ h => h)
    simpa only [wp_bind] using hend w' h'.1 h'.2
  · simpa only [wp_bind] using hend w rfl rfl

theorem cleanupTail_refines (h : Threads t w) (i : Slot) (auth : Bool) :
    ∃ t', t.cleanupTail i auth = some t' ∧
      wp (cleanupTail c i auth) (fun _ w' => Threads t' w') (fun _ _ => False) w := by
  have hstop : Threads (t.stopRetx i)
      (w.updSta i fun s => { s with td := none, retxExceedHndlr := false }) :=
    h.updSta i _ rfl rfl
  simp only [Table.cleanupTail, cleanupTail, wpaStopRetx, wp_bind, wp_modSta, wp_getSta, wp_ite,
    wp_pure, hstop.sta]
  split
  · rename_i hkeep
    exact ⟨_, rfl, fun _ => hstop.updSta i _ rfl rfl, fun hno => absurd hkeep hno⟩
  · rename_i hkeep
    split
    · rename_i hauth
      obtain ⟨t', htoss, hwp⟩ := tossSta_refines (c := c) hstop i 0 true
      exact ⟨t', htoss, fun hyes => absurd hyes hkeep,
        fun _ => ⟨fun _ => hwp, fun hno => absurd hauth hno⟩⟩
    · rename_i hauth
      exact ⟨_, rfl, fun hyes => absurd hyes hkeep,
        fun _ => ⟨fun hyes => absurd hyes hauth, fun _ => hstop⟩⟩

/-- **`cleanup_sta`** with links is `cleanupSta` on lists. -/
theorem cleanupSta_refines (h : Threads t w) (i : Slot) (reason : Nat) (driverSignal : Bool) :
    ∃ t', t.cleanupSta c i driverSignal = some t' ∧
      wp (cleanupSta c i reason driverSignal) (fun _ w' => Threads t' w') (fun _ _ => False) w := by
  have hdis : Threads (t.updSta i fun s => { s with state := .disconnected })
      (w.updSta i fun s => { s with state := .disconnected }) := h.updSta i _ rfl rfl
  simp only [Table.cleanupSta, cleanupSta, wp_bind, wp_ite, wp_modSta, wp_getSta]
  cases hauth : (c.cfg.wds && decide (c.cfg.role = .authenticator)) with
  | true =>
      cases driverSignal with
      | true =>
          obtain ⟨t', htail, hwp⟩ := cleanupTail_refines (c := c) h i true
          exact ⟨t', htail, (by rintro ⟨⟩), fun _ => ⟨(by rintro ⟨⟩), fun _ => hwp⟩⟩
      | false =>
          obtain ⟨t', htail, hwp⟩ := cleanupTail_refines (c := c) hdis i true
          exact ⟨t', htail, fun _ => ⟨(by rintro ⟨⟩), fun _ => hwp⟩, fun hno => absurd rfl hno⟩
  | false =>
      obtain ⟨t', htail, hwp⟩ := cleanupTail_refines (c := c) h i false
      refine ⟨t', htail, (by rintro ⟨⟩), fun _ => ⟨fun _ => ?_, fun _ => hwp⟩⟩
      refine wp_mono (nasDeauthenticate_table _ _) (fun _ w' h' => ?_) (fun _ _ h => h)
      obtain ⟨t'', htail', hwp'⟩ := cleanupTail_refines (c := c) (h.congr h'.1 h'.2) i false
      cases htail.symm.trans htail'
      exact hwp'

theorem scan_eq (w : World) (l : List Slot) (oldest : Nat) (old : Option Slot) :
    Table.scan w.sta l oldest old = scanSlots w l oldest old := by
  induction l generalizing oldest old with
  | nil => rfl
  | cons i l ih =>
      simp only [Table.scan, scanSlots, ih]

theorem enterSta_refines (h : Threads t w) {ea : Bytes} (now : Nat) {i : Slot}
    (hfree : (t.sta i).used = false) (hnew : ∀ j, (t.sta j).used = true → (t.sta j).ea ≠ ea) :
    wp (enterSta c ea now i) (fun _ w' => Threads (t.enterSta c ea now i) w')
      (fun _ _ => False) w := by
  have hrep := h.represents.enterSta c now hfree hnew
  simp only [enterSta, wp_bind, wp_modSta, wp_ite, wp_modify, wp_emit]
  refine ⟨fun _ => ⟨?_, ?_⟩, fun _ => ⟨?_, ?_⟩⟩
  · simp [Table.enterSta, World.updSta, World.out, World.setChain, h.sta]
  · simpa [World.updSta, World.out, World.setChain] using hrep
  · simp [Table.enterSta, World.updSta, World.out, World.setChain, h.sta]
  · simpa [World.updSta, World.out, World.setChain] using hrep

/-- **`lookup_sta`** with links is `lookupSta` on lists, at the time of the instance. -/
theorem lookupSta_refines (h : Threads t w) (ea : Bytes) (enter : Bool) :
    ∃ t' r, t.lookupSta c ea enter w.now = some (t', r) ∧
      wp (lookupSta c ea enter) (fun r' w' => r' = r ∧ Threads t' w') (fun _ _ => False) w := by
  have hbucketed := h.represents.bucketed
  have hwalk := walk_eq (fun i => decide ((t.sta i).ea = ea))
    (h.represents.chain (paeHash ea)) ((hbucketed.length_le _).trans card_slot)
  simp only [Table.lookupSta, lookupSta, wp_bind, wp_get, hwalk, ← h.sta]
  cases hfind : (w.staHashed (paeHash ea)).find? fun i => decide ((t.sta i).ea = ea) with
  | some i => exact ⟨_, _, rfl, rfl, h.updSta i _ rfl rfl⟩
  | none =>
      have hnew : ∀ j, (t.sta j).used = true → (t.sta j).ea ≠ ea := fun j hj hea =>
        absurd (hfind.symm.trans (hbucketed.find.mpr ⟨hj, hea⟩)) (by simp)
      cases enter with
      | false => exact ⟨_, _, rfl, rfl, h⟩
      | true =>
          have hscan : scanSlots w slots w.now none = Table.scan t.sta slots w.now none := by
            rw [h.sta, scan_eq]
          simp only [Bool.not_true, Bool.false_eq_true, if_false, hscan]
          cases hslot : Table.scan t.sta slots w.now none with
          | none => exact ⟨_, _, rfl, rfl, h⟩
          | some ie =>
              obtain ⟨i, evict⟩ := ie
              cases evict with
              | false =>
                  rw [scan_eq_pick] at hslot
                  have hfree := pick_free hslot
                  refine ⟨_, _, rfl, ?_⟩
                  simp only [Bool.false_eq_true, if_false, wp_bind, wp_pure]
                  exact wp_mono (enterSta_refines h w.now hfree hnew)
                    (fun _ _ h' => ⟨trivial, h'⟩) (fun _ _ h' => h')
              | true =>
                  obtain ⟨t₁, htoss, hwp⟩ := tossSta_refines (c := c) h i dot11RcBusy false
                  obtain ⟨t₂, htoss', -, hsta, -⟩ := h.represents.tossSta i
                  cases htoss.symm.trans htoss'
                  obtain ⟨hfree, hnew'⟩ := vacated Sta.used Sta.ea hsta rfl hnew
                  simp only [if_true, htoss, Option.map_some, wp_bind, wp_pure]
                  refine ⟨_, _, rfl, wp_mono hwp (fun _ w₁ h₁ => ?_) (fun _ _ h' => h')⟩
                  exact wp_mono (enterSta_refines h₁ w.now hfree hnew') (fun _ _ h' => ⟨rfl, h'⟩)
                    (fun _ _ h' => h')

end Refines

/-- **The station table**, after any sequence of calls. -/
theorem station_table (c : Ctx) (calls : List Table.Call) :
    ∃ t, run (Table.step c) (some Table.zero) calls = some t ∧
      -- the chains end, and hold exactly the slots in use, once and in their buckets
      (∃ chains : Slot → List Slot, ∀ h, IsChain t.next (t.staHashed h) (chains h) ∧
        (chains h).Nodup ∧
        ∀ i, i ∈ chains h ↔ (t.sta i).used = true ∧ paeHash (t.sta i).ea = h) ∧
      (∀ i j, (t.sta i).used = true → (t.sta j).used = true → (t.sta i).ea = (t.sta j).ea → i = j) ∧
      -- a station is found just in case it was entered and not tossed since
      (∀ ea now, ∃ t' r, t.lookupSta c ea false now = some (t', r) ∧
        (r.isSome ↔ InUse ea t.log) ∧
        (∀ i, r = some i ↔ (t.sta i).used = true ∧ (t.sta i).ea = ea) ∧
        t'.log = t.log ∧
        ∀ i, (t'.sta i).used = (t.sta i).used ∧ (t'.sta i).ea = (t.sta i).ea) ∧
      (∀ i, (t.sta i).used = false → (t.sta i).td = none) ∧
      -- a lookup that may enter finds the station, or enters it, or finds every slot taken
      (∀ ea now, ∃ t' r, t.lookupSta c ea true now = some (t', r) ∧
        TableInv.StaEntered t ea now t' r ∧ ∀ j, r ≠ some j → t'.sta j = t.sta j) ∧
      -- a slot that is tossed becomes free
      (∀ i, ∃ t', t.tossSta i = some t' ∧
        Removed (fun j => (t.sta j).used) (fun j => (t.sta j).ea) t.log i
          (fun j => (t'.sta j).used) t'.log ∧
        ∀ j, j ≠ i → t'.sta j = t.sta j) ∧
      -- a cleanup tosses a station without a cached PMK, but not the peer of a WDS authenticator
      ∀ i driverSignal, ∃ t', t.cleanupSta c i driverSignal = some t' ∧
        TableInv.Cleaned t i (TableInv.holdsPmk (t.sta i)
          || (c.cfg.wds && decide (c.cfg.role = .authenticator))) t' := by
  obtain ⟨t, hrun, h⟩ := TableInv.run (c := c) calls
  obtain ⟨chains, hrep⟩ := id h.chains
  have hbucketed := hrep.bucketed
  refine ⟨t, hrun, ⟨chains, fun b => ⟨hrep.chain b, hbucketed.nodup b, hbucketed.mem b⟩⟩,
    hbucketed.distinct, ?_, h.timers, ?_, ?_, ?_⟩
  · intro ea now
    obtain ⟨t', r, hlookup, -, hlog, hsame, hfound⟩ := h.lookupSta_search (c := c) ea now
    refine ⟨t', r, hlookup, ?_, hfound, hlog, hsame⟩
    rw [h.known, Option.isSome_iff_exists]
    exact exists_congr hfound
  · intro ea now
    obtain ⟨t', r, hlookup, -, hentered, hother⟩ := h.lookupSta (c := c) ea now
    exact ⟨t', r, hlookup, hentered, hother⟩
  · intro i
    obtain ⟨t', htoss, -, hsta, hlog⟩ := h.tossSta i
    refine ⟨t', htoss, ⟨?_, hlog⟩, fun j hj => ?_⟩
    · rw [hsta, Function.update_self]
      rfl
    · rw [hsta, Function.update_of_ne hj]
  · intro i driverSignal
    obtain ⟨t', hcleanup, -, hcleaned⟩ := h.cleanupSta (c := c) i driverSignal
    exact ⟨t', hcleanup, hcleaned⟩

end BroadcomWl.Nas
