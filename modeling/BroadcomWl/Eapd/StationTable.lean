import Mathlib
import BroadcomWl.Eapd.Station
import BroadcomWl.Lib.SlotTable

/-!
# The station table of eapd is a map

**`eapd_station_table`**: after any sequence of calls, every chain ends, the chains hold exactly the
slots in use, each once and in the bucket of its address, no two of them have the same address, and
`sta_lookup` finds a station just in case it was entered and neither removed nor evicted since. And
each call does what it is for: one that may enter finds the station, or puts it into a free slot or
that of the least recently used station, or finds every slot taken; a removed slot becomes free.

The invariant is that of a hash table in an array of slots (`Lib.Threaded`, `Lib.Known`); each
function of the table is one of its rules.
-/

namespace BroadcomWl.Eapd

open BroadcomWl.Lib
open BroadcomWl.Nas (Bytes)

/-- **The invariant of the station table.** -/
structure StaTableInv (t : StaTable) : Prop where
  threaded : ∃ chains, Threaded paeHash (fun i => (t.sta i).used) (fun i => (t.sta i).ea) t.next
    t.staHashed chains
  /-- The stations in use are those that were entered and neither removed nor evicted since. -/
  known : Known (fun i => (t.sta i).used) (fun i => (t.sta i).ea) t.log

theorem card_slot : Fintype.card Slot ≤ maxSupplicants := by
  rw [Fintype.card_fin]

theorem seenSta_used (psta : Bytes → Bool) (bssidEa : Option Bytes) (ifname : Bytes) (s : Sta) :
    (StaTable.seenSta psta bssidEa ifname s).used = s.used := by
  unfold StaTable.seenSta
  split
  · rfl
  · split <;> rfl

theorem seenSta_ea (psta : Bytes → Bool) (bssidEa : Option Bytes) (ifname : Bytes) (s : Sta) :
    (StaTable.seenSta psta bssidEa ifname s).ea = s.ea := by
  unfold StaTable.seenSta
  split
  · rfl
  · split <;> rfl

theorem scan_eq_pick (sta : Slot → Sta) (l : List Slot) (oldest : Int) (old : Option Slot) :
    StaTable.scan sta l oldest old =
      pick (fun i => (sta i).used) (fun i => (sta i).lastUse) l oldest old := by
  induction l generalizing oldest old with
  | nil => rfl
  | cons i l ih => simp only [StaTable.scan, pick, ih]

namespace StaTableInv

variable {t : StaTable}

theorem zero : StaTableInv StaTable.zero where
  threaded := by
    refine ⟨fun _ => [], ⟨⟨fun _ => List.nodup_nil, ?_, ?_⟩, fun _ => trivial⟩⟩
    · intro b i
      simp [StaTable.zero, Sta.zero]
    · intro i j hi
      cases hi
  known := by
    intro ea
    refine ⟨False.elim, ?_⟩
    rintro ⟨i, hi, -⟩
    cases hi

/-- A change of a station that leaves its address and its mark of use alone. -/
theorem updSta (h : StaTableInv t) (i : Slot) (f : Sta → Sta)
    (hused : (f (t.sta i)).used = (t.sta i).used) (hea : (f (t.sta i)).ea = (t.sta i).ea) :
    StaTableInv (t.updSta i f) := by
  have hused' : ∀ j, ((t.updSta i f).sta j).used = (t.sta j).used := by
    intro j
    by_cases hji : j = i
    · subst hji
      simpa [StaTable.updSta] using hused
    · simp [StaTable.updSta, hji]
  have hea' : ∀ j, ((t.updSta i f).sta j).ea = (t.sta j).ea := by
    intro j
    by_cases hji : j = i
    · subst hji
      simpa [StaTable.updSta] using hea
    · simp [StaTable.updSta, hji]
  obtain ⟨chains, hthreaded⟩ := h.threaded
  exact ⟨⟨chains, hthreaded.congr hused' hea'⟩, h.known.congr hused' hea'⟩

/-- **`sta_remove`** ends, for a station in use and for a slot that is free. -/
theorem staRemove (h : StaTableInv t) (i : Slot) :
    ∃ t', t.staRemove i = some t' ∧ StaTableInv t' ∧
      t'.sta = Function.update t.sta i { t.sta i with used := false } ∧
      t'.log = if (t.sta i).used then .release (t.sta i).ea :: t.log else t.log := by
  obtain ⟨chains, hthreaded⟩ := h.threaded
  obtain ⟨next', head', hunlink, hkept⟩ := hthreaded.remove card_slot i
  simp only [StaTable.staRemove, hunlink, Option.map_some]
  refine ⟨_, rfl, ⟨⟨_, hkept ?_ ?_ ?_⟩, ?_⟩, rfl, rfl⟩
  · simp [StaTable.updSta]
  · intro j hj
    simp [StaTable.updSta, hj]
  · intro j hj
    simp [StaTable.updSta, hj]
  · simp only [StaTable.updSta]
    cases hused : (t.sta i).used with
    | false =>
        apply h.known.remove_free hused
        · simp
        · intro j hj
          simp [hj]
        · intro j hj
          simp [hj]
    | true =>
        apply h.known.remove hused
        · simp
        · intro j hj hji
          exact hthreaded.bucketed.distinct j i hj hused hji
        · intro j hj
          simp [hj]
        · intro j hj
          simp [hj]

theorem enterSta (h : StaTableInv t) (staEa bssidEa ifname : Bytes) (now : Int) {i : Slot}
    (hfree : (t.sta i).used = false) (hnew : ∀ j, (t.sta j).used = true → (t.sta j).ea ≠ staEa) :
    StaTableInv (t.enterSta staEa bssidEa ifname now i) := by
  have hi : ((t.enterSta staEa bssidEa ifname now i).sta i).used = true := by
    simp [StaTable.enterSta, StaTable.newSta]
  have hik : ((t.enterSta staEa bssidEa ifname now i).sta i).ea = staEa := by
    simp [StaTable.enterSta, StaTable.newSta]
  have hsta : ∀ j, j ≠ i → (t.enterSta staEa bssidEa ifname now i).sta j = t.sta j := by
    intro j hj
    simp [StaTable.enterSta, hj]
  obtain ⟨chains, hthreaded⟩ := h.threaded
  constructor
  · refine ⟨_, hthreaded.enter hfree hnew hi hik ?_ ?_⟩
    · intro j hj
      rw [hsta j hj]
    · intro j hj
      rw [hsta j hj]
  · apply h.known.enter hfree hi hik
    · intro j hj
      rw [hsta j hj]
    · intro j hj
      rw [hsta j hj]

/-- **A search finds just the stations in the table.** -/
theorem search (h : StaTableInv t) (staEa : Bytes) :
    ∃ r, walk t.next (fun i => (t.sta i).ea = staEa) maxSupplicants (t.staHashed (paeHash staEa)) =
        some r ∧
      ∀ i, r = some i ↔ (t.sta i).used = true ∧ (t.sta i).ea = staEa := by
  obtain ⟨chains, hthreaded⟩ := h.threaded
  exact hthreaded.search card_slot staEa

theorem staLookup_search (h : StaTableInv t) (psta : Bytes → Bool) (staEa : Bytes)
    (bssidEa : Option Bytes) (ifname : Bytes) (now : Int) :
    ∃ t' r, t.staLookup psta staEa bssidEa ifname .searchOnly now = some (t', r) ∧ StaTableInv t' ∧
      t'.log = t.log ∧ (∀ i, (t'.sta i).used = (t.sta i).used ∧ (t'.sta i).ea = (t.sta i).ea) ∧
      ∀ i, r = some i ↔ (t.sta i).used = true ∧ (t.sta i).ea = staEa := by
  obtain ⟨r, hwalk, hfound⟩ := h.search staEa
  simp only [StaTable.staLookup, hwalk]
  cases r with
  | some i =>
      refine ⟨_, _, rfl, h.updSta i _ ?_ ?_, rfl, fun j => ?_, hfound⟩
      · exact seenSta_used ..
      · exact seenSta_ea ..
      · by_cases hji : j = i
        · subst hji
          simp [StaTable.updSta, seenSta_used, seenSta_ea]
        · simp [StaTable.updSta, hji]
  | none => exact ⟨_, _, rfl, h, rfl, fun _ => ⟨rfl, rfl⟩, hfound⟩

/-- A lookup has entered the station, or found it. -/
abbrev StaEntered (t : StaTable) (staEa : Bytes) (now : Int) (t' : StaTable) (r : Option Slot) :
    Prop :=
  Entered (fun i => (t.sta i).used) (fun i => (t.sta i).ea) (fun i => (t.sta i).lastUse)
    t.log staEa now
    (fun i => (t'.sta i).used) (fun i => (t'.sta i).ea) t'.log r

/-- **`sta_lookup`** ends. It finds a station that is in the table, and otherwise enters it or has
no slot for it. -/
theorem staLookup (h : StaTableInv t) (psta : Bytes → Bool) (staEa bssidEa ifname : Bytes)
    (now : Int) :
    ∃ t' r, t.staLookup psta staEa (some bssidEa) ifname .searchEnter now = some (t', r) ∧
      StaTableInv t' ∧ StaEntered t staEa now t' r ∧ ∀ j, r ≠ some j → t'.sta j = t.sta j := by
  obtain ⟨r, hwalk, hfound⟩ := h.search staEa
  simp only [StaTable.staLookup, hwalk]
  cases r with
  | some i =>
      obtain ⟨hin, hea⟩ := (hfound i).mp rfl
      refine ⟨_, _, rfl, h.updSta i _ ?_ ?_, .found hin hea ?_ ?_ rfl, fun j hj => ?_⟩
      · exact seenSta_used ..
      · exact seenSta_ea ..
      · simpa [StaTable.updSta, seenSta_used] using hin
      · simpa [StaTable.updSta, seenSta_ea] using hea
      · have hji : j ≠ i := fun heq => hj (congrArg some heq.symm)
        simp [StaTable.updSta, hji]
  | none =>
      have hnew : ∀ j, (t.sta j).used = true → (t.sta j).ea ≠ staEa := fun j hj hea =>
        absurd ((hfound j).mpr ⟨hj, hea⟩) (by simp)
      have hentered : ∀ (t₁ : StaTable) (i : Slot),
          ((t₁.enterSta staEa bssidEa ifname now i).sta i).used = true ∧
          ((t₁.enterSta staEa bssidEa ifname now i).sta i).ea = staEa := by
        intro t₁ i
        simp [StaTable.enterSta, StaTable.newSta]
      cases hscan : StaTable.scan t.sta (List.finRange maxSupplicants) now none with
      | none =>
          rw [scan_eq_pick] at hscan
          obtain ⟨-, hall⟩ := pick_none hscan
          refine ⟨_, _, rfl, h, .full hnew (fun j => hall j (List.mem_finRange j)) rfl,
            fun _ _ => rfl⟩
      | some ie =>
          obtain ⟨i, evict⟩ := ie
          rw [scan_eq_pick] at hscan
          cases evict with
          | false =>
              have hfree := pick_free hscan
              refine ⟨_, _, rfl, h.enterSta staEa bssidEa ifname now hfree hnew,
                .free hnew hfree (hentered t i).1 (hentered t i).2 rfl, fun j hj => ?_⟩
              have hji : j ≠ i := fun heq => hj (congrArg some heq.symm)
              simp [StaTable.enterSta, hji]
          | true =>
              -- the least recently used station makes room
              obtain ⟨hleast, -, hold⟩ := pick_used hscan (by rintro j ⟨⟩)
              obtain ⟨t₁, hremove, h₁, hsta, hlog⟩ := h.staRemove i
              obtain ⟨hfree, hnew'⟩ := vacated Sta.used Sta.ea hsta rfl hnew
              simp only [if_true, hremove, Option.map_some]
              refine ⟨_, _, rfl, h₁.enterSta staEa bssidEa ifname now hfree hnew',
                .evicted hnew (fun j => hleast j (List.mem_finRange j)) (hold rfl) (hentered t₁ i).1
                  (hentered t₁ i).2 ?_, fun j hj => ?_⟩
              · show Access.alloc staEa :: t₁.log = _
                rw [hlog, if_pos (hleast i (List.mem_finRange i)).1]
              · have hji : j ≠ i := fun heq => hj (congrArg some heq.symm)
                simp [StaTable.enterSta, hji, hsta]

/-- **Every call ends and keeps the invariant.** -/
theorem step (h : StaTableInv t) (call : StaTable.Call) :
    ∃ t', StaTable.step (some t) call = some t' ∧ StaTableInv t' := by
  cases call with
  | search psta staEa bssidEa ifname now =>
      obtain ⟨t', r, hlookup, hinv, -⟩ := h.staLookup_search psta staEa bssidEa ifname now
      exact ⟨t', by simp only [StaTable.step, hlookup, Option.map_some], hinv⟩
  | enter psta staEa bssidEa ifname now =>
      obtain ⟨t', r, hlookup, hinv, -⟩ := h.staLookup psta staEa bssidEa ifname now
      exact ⟨t', by simp only [StaTable.step, hlookup, Option.map_some], hinv⟩
  | staRemove i =>
      obtain ⟨t', hremove, hinv, -⟩ := h.staRemove i
      exact ⟨t', hremove, hinv⟩
  | write i s =>
      simp only [StaTable.step]
      split
      · rename_i hused
        exact ⟨_, rfl, h.updSta i _ hused.symm rfl⟩
      · exact ⟨t, rfl, h⟩

theorem run (calls : List StaTable.Call) :
    ∃ t, Lib.run StaTable.step (some StaTable.zero) calls = some t ∧ StaTableInv t := by
  refine run_kept (I := fun s => ∃ t, s = some t ∧ StaTableInv t) ?_ calls ⟨_, rfl, zero⟩
  rintro s call ⟨t, rfl, h⟩
  exact h.step call

end StaTableInv

/-- **The station table**, after any sequence of calls. -/
theorem eapd_station_table (calls : List StaTable.Call) :
    ∃ t, run StaTable.step (some StaTable.zero) calls = some t ∧
      -- the chains end, and hold exactly the slots in use, once and in their buckets
      (∃ chains : Slot → List Slot, ∀ h, IsChain t.next (t.staHashed h) (chains h) ∧
        (chains h).Nodup ∧
        ∀ i, i ∈ chains h ↔ (t.sta i).used = true ∧ paeHash (t.sta i).ea = h) ∧
      (∀ i j, (t.sta i).used = true → (t.sta j).used = true → (t.sta i).ea = (t.sta j).ea → i = j) ∧
      -- a station is found just in case it was entered and neither removed nor evicted since
      (∀ psta staEa bssidEa ifname now, ∃ t' r,
        t.staLookup psta staEa bssidEa ifname .searchOnly now = some (t', r) ∧
        (r.isSome ↔ InUse staEa t.log) ∧
        (∀ i, r = some i ↔ (t.sta i).used = true ∧ (t.sta i).ea = staEa) ∧
        t'.log = t.log ∧
        ∀ i, (t'.sta i).used = (t.sta i).used ∧ (t'.sta i).ea = (t.sta i).ea) ∧
      -- a lookup that may enter finds the station, or enters it, or finds every slot taken
      (∀ psta staEa bssidEa ifname now, ∃ t' r,
        t.staLookup psta staEa (some bssidEa) ifname .searchEnter now = some (t', r) ∧
        StaTableInv.StaEntered t staEa now t' r ∧ ∀ j, r ≠ some j → t'.sta j = t.sta j) ∧
      -- a slot that is removed becomes free
      ∀ i, ∃ t', t.staRemove i = some t' ∧
        Removed (fun j => (t.sta j).used) (fun j => (t.sta j).ea) t.log i
          (fun j => (t'.sta j).used) t'.log ∧
        ∀ j, j ≠ i → t'.sta j = t.sta j := by
  obtain ⟨t, hrun, h⟩ := StaTableInv.run calls
  obtain ⟨chains, hthreaded⟩ := h.threaded
  have hbucketed := hthreaded.bucketed
  refine ⟨t, hrun, ⟨chains, fun b => ⟨hthreaded.chain b, hbucketed.nodup b, hbucketed.mem b⟩⟩,
    hbucketed.distinct, ?_, ?_, ?_⟩
  · intro psta staEa bssidEa ifname now
    obtain ⟨t', r, hlookup, -, hlog, hsame, hfound⟩ :=
      h.staLookup_search psta staEa bssidEa ifname now
    refine ⟨t', r, hlookup, ?_, hfound, hlog, hsame⟩
    rw [h.known, Option.isSome_iff_exists]
    exact exists_congr hfound
  · intro psta staEa bssidEa ifname now
    obtain ⟨t', r, hlookup, -, hentered, hother⟩ := h.staLookup psta staEa bssidEa ifname now
    exact ⟨t', r, hlookup, hentered, hother⟩
  · intro i
    obtain ⟨t', hremove, -, hsta, hlog⟩ := h.staRemove i
    refine ⟨t', hremove, ⟨?_, hlog⟩, fun j hj => ?_⟩
    · rw [hsta, Function.update_self]
    · rw [hsta, Function.update_of_ne hj]

end BroadcomWl.Eapd
