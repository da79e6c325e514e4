import BroadcomWl.Shadow.Tasklet

/-!
# No lost wakeup

The blob schedules a tasklet only if the SCHED bit in its own structure is clear. A bit that is
set while no tasklet is pending is therefore never cleared again. **`no_lost_wakeup`**: in the
runs of `Calm`, whenever the bit of a mapped tasklet is set and no schedule call for it is in
progress, the kernel's tasklet is pending or its trampoline is about to clear the bit; and each
run calls the handler last given to `tasklet_init`.

`Calm` excludes what the steps of `tasklet_init` and `tasklet_kill` leave room for. The shim
clears the bit of a new tasklet before it hashes the entry: a schedule call in between finds no
entry, and leaves the bit set with nothing pending (`scheduled_before_hash_add`).
-/

namespace BroadcomWl.Shadow.Tasklet

open BroadcomWl.Lib

/-! ## The condition and the property -/

/-- The call is an initialisation or a deletion of the tasklet `t`. -/
def State.Concerns (s : State) (c : Call) (t : Addr) : Prop :=
  match c with
  | .initFresh t' _ _ => t' = t
  | .initPublish m => (s.maps m).blob = t
  | .killReal m => (s.maps m).blob = t
  | .killClear m => (s.maps m).blob = t
  | _ => False

/-- The call is going to schedule the tasklet `t`. -/
def State.Schedules (s : State) (c : Call) (t : Addr) : Prop :=
  match c with
  | .schedule t' => t' = t
  | .scheduleReal m => (s.maps m).blob = t
  | _ => False

instance (s : State) (t : Addr) : (c : Call) → Decidable (s.Concerns c t)
  | .initFresh t' _ _ => inferInstanceAs (Decidable (t' = t))
  | .initPublish m => inferInstanceAs (Decidable ((s.maps m).blob = t))
  | .killReal m => inferInstanceAs (Decidable ((s.maps m).blob = t))
  | .killClear m => inferInstanceAs (Decidable ((s.maps m).blob = t))
  | .initClear _ => isFalse id
  | .schedule _ => isFalse id
  | .scheduleReal _ => isFalse id

instance (s : State) (t : Addr) : (c : Call) → Decidable (s.Schedules c t)
  | .schedule t' => inferInstanceAs (Decidable (t' = t))
  | .scheduleReal m => inferInstanceAs (Decidable ((s.maps m).blob = t))
  | .initFresh _ _ _ => isFalse id
  | .initPublish _ => isFalse id
  | .killReal _ => isFalse id
  | .killClear _ => isFalse id
  | .initClear _ => isFalse id

/-- The steps that the shim does not guard against:

- a tasklet is initialised while another initialisation or a deletion of it is in progress;
- the entry of a new tasklet is hashed after a schedule call has failed to find it;
- `tasklet_kill` goes on to free an entry that a schedule call has found and not yet used. -/
def Calm (s : State) : Event → Prop
  | .taskletInit t _ _ => s.mapFind t = none → ∀ c ∈ s.calls, ¬ s.Concerns c t
  | .next (.initPublish m) _ =>
      s.sched (s.maps m).blob = true → .schedule (s.maps m).blob ∈ s.calls
  | .next (.killReal m) _ => .scheduleReal m ∉ s.calls
  | _ => True

instance (s : State) : (e : Event) → Decidable (Calm s e)
  | .taskletInit t _ _ =>
      inferInstanceAs (Decidable (s.mapFind t = none → ∀ c ∈ s.calls, ¬ s.Concerns c t))
  | .next (.initPublish m) _ => inferInstanceAs
      (Decidable (s.sched (s.maps m).blob = true → .schedule (s.maps m).blob ∈ s.calls))
  | .next (.killReal m) _ => inferInstanceAs (Decidable (.scheduleReal m ∉ s.calls))
  | .next (.initClear _) _ => isTrue trivial
  | .next (.initFresh _ _ _) _ => isTrue trivial
  | .next (.schedule _) _ => isTrue trivial
  | .next (.scheduleReal _) _ => isTrue trivial
  | .next (.killClear _) _ => isTrue trivial
  | .blobSchedule _ => isTrue trivial
  | .callSchedule _ => isTrue trivial
  | .taskletKill _ => isTrue trivial
  | .softirq _ => isTrue trivial
  | .tramp _ => isTrue trivial

/-- What the driver's bottom half relies on. -/
structure Awake (s : State) : Prop where
  wake : ∀ m ∈ s.ht, s.sched (s.maps m).blob = true →
    (∀ c ∈ s.calls, ¬ s.Schedules c (s.maps m).blob) →
    (s.maps m).pending = true ∨ (s.maps m).running = some .entered
  handler : ∀ r ∈ s.log, ∃ g, r.given = some g ∧ r.called = if g.1 ≠ 0 then some g else none

/-! ## The invariant -/

/-- The call is responsible for the entry `m`, which is not in the map yet or not any more. -/
def Call.owns : Call → MapPtr → Prop
  | .initPublish m, m' => m = m'
  | .killReal m, m' => m = m'
  | .killClear m, m' => m = m'
  | _, _ => False

/-- Initialisations and deletions. -/
def Call.table : Call → Bool
  | .initFresh _ _ _ => true
  | .initPublish _ => true
  | .killReal _ => true
  | .killClear _ => true
  | _ => false

/-- The initialisations and deletions in progress. -/
def State.owners (s : State) : List Call := s.calls.filter Call.table

/-- An entry that is allocated. -/
def State.Live (s : State) (m : MapPtr) : Prop := m ∈ s.ht ∨ ∃ c ∈ s.owners, c.owns m

/-- Two calls are not responsible for the same entry, and do not set up the same tasklet. -/
def Apart (c c' : Call) : Prop :=
  (∀ m, c.owns m → ¬ c'.owns m) ∧
    ∀ t f d f' d', c = .initFresh t f d → c' ≠ .initFresh t f' d'

/-- The entries: each tasklet has at most one, with the handler last given. -/
structure Table (s : State) : Prop where
  lt : ∀ m, s.Live m → m < s.nextMap
  inj : ∀ m m', s.Live m → s.Live m' → (s.maps m).blob = (s.maps m').blob → m = m'
  owned : ∀ c ∈ s.owners, ∀ m, c.owns m → m ∉ s.ht
  apart : s.owners.Pairwise Apart
  fresh : ∀ t f d, .initFresh t f d ∈ s.owners →
    s.given t = some (f, d) ∧ ∀ m, s.Live m → (s.maps m).blob ≠ t
  given : ∀ m, s.Live m → s.given (s.maps m).blob = some ((s.maps m).func, (s.maps m).data)

structure Inv (s : State) : Prop where
  table : Table s
  active : ∀ m, (s.maps m).pending = true ∨ (s.maps m).running ≠ none ∨ .scheduleReal m ∈ s.calls →
    s.Live m
  killed : ∀ m, .killClear m ∈ s.owners →
    (s.maps m).pending = false ∧ (s.maps m).running = none ∧ .scheduleReal m ∉ s.calls
  wake : ∀ m ∈ s.ht, s.sched (s.maps m).blob = true →
    (s.maps m).pending = true ∨ (s.maps m).running = some .entered ∨
      .schedule (s.maps m).blob ∈ s.calls ∨ .scheduleReal m ∈ s.calls
  log : ∀ r ∈ s.log, ∃ g, r.given = some g ∧ r.called = if g.1 ≠ 0 then some g else none

/-! ## Lookups and calls after a step -/

section Lemmas

variable {s s' : State} {m m' : MapPtr} {t : Addr} {c c' : Call}

theorem mem_of_mapFind (h : s.mapFind t = some m) : m ∈ s.ht ∧ (s.maps m).blob = t := by
  have hp := List.find?_some h
  exact ⟨List.mem_of_find?_eq_some h, by simpa using hp⟩

theorem blob_ne_of_mapFind (h : s.mapFind t = none) (hm : m ∈ s.ht) : (s.maps m).blob ≠ t := by
  have hp := List.find?_eq_none.mp h m hm
  simpa using hp

@[simp] theorem updMap_self (f : TaskletMap → TaskletMap) :
    (s.updMap m f).maps m = f (s.maps m) := by
  simp [State.updMap]

theorem updMap_of_ne (f : TaskletMap → TaskletMap) (h : m' ≠ m) :
    (s.updMap m f).maps m' = s.maps m' := by
  simp [State.updMap, h]

theorem Apart.symm (h : Apart c c') : Apart c' c :=
  ⟨fun m hm' hm => h.1 m hm hm', fun t f d f' d' hc' hc => h.2 t f' d' f d hc hc'⟩

theorem apart_of_erase {l : List Call} (h : l.Pairwise Apart) (hc : c ∈ l) :
    (∀ x ∈ l.erase c, Apart c x) ∧ (l.erase c).Pairwise Apart := by
  have hperm := List.perm_cons_erase hc
  exact List.pairwise_cons.mp ((hperm.pairwise_iff Apart.symm).mp h)

theorem mem_owners (hc : c ∈ s.calls) (ht : c.table = true) : c ∈ s.owners :=
  List.mem_filter.mpr ⟨hc, ht⟩

/-- Starting or ending a call that is neither an initialisation nor a deletion leaves the owners
as they are. -/
theorem owners_cons (hcalls : s'.calls = c :: s.calls) (ht : c.table = false) :
    s'.owners = s.owners := by
  simp [State.owners, hcalls, ht]

theorem owners_leave (hcalls : s'.calls = s.calls.erase c) (ht : c.table = false) :
    s'.owners = s.owners := by
  rw [State.owners, hcalls, ← List.erase_filter, List.erase_of_not_mem]
  · rfl
  · simp [ht]

theorem owners_advance (hcalls : s'.calls = c' :: s.calls.erase c) (ht : c.table = false)
    (ht' : c'.table = false) : s'.owners = s.owners := by
  rw [State.owners, hcalls, List.filter_cons_of_neg (by simp [ht']), ← List.erase_filter,
    List.erase_of_not_mem]
  · rfl
  · simp [ht]

end Lemmas

/-! ## Each step keeps the invariant -/

section Steps

variable {s s' : State} {m m' : MapPtr} {t : Addr} {c c' : Call}

theorem live_congr (hht : s'.ht = s.ht) (ho : s'.owners = s.owners) : s'.Live m ↔ s.Live m := by
  rw [State.Live, State.Live, hht, ho]

/-- A step that neither initialises nor deletes a tasklet keeps the entries. -/
theorem Table.frame (h : Table s) (hht : s'.ht = s.ht) (hn : s'.nextMap = s.nextMap)
    (hg : s'.given = s.given) (ho : s'.owners = s.owners)
    (hm : ∀ m, (s'.maps m).blob = (s.maps m).blob ∧ (s'.maps m).func = (s.maps m).func ∧
      (s'.maps m).data = (s.maps m).data) : Table s' where
  lt := by
    intro m hl
    rw [hn]
    exact h.lt m ((live_congr hht ho).mp hl)
  inj := by
    intro m m' hl hl' heq
    rw [(hm m).1, (hm m').1] at heq
    exact h.inj m m' ((live_congr hht ho).mp hl) ((live_congr hht ho).mp hl') heq
  owned := by rw [ho, hht]; exact h.owned
  apart := by rw [ho]; exact h.apart
  fresh := by
    intro t f d hc
    rw [ho] at hc
    obtain ⟨hgiven, hne⟩ := h.fresh t f d hc
    refine ⟨by rw [hg]; exact hgiven, fun m hl => ?_⟩
    rw [(hm m).1]
    exact hne m ((live_congr hht ho).mp hl)
  given := by
    intro m hl
    obtain ⟨hb, hf, hd⟩ := hm m
    rw [hb, hf, hd, hg]
    exact h.given m ((live_congr hht ho).mp hl)

/-- A step that neither initialises nor deletes a tasklet keeps the invariant, if it wakes what
it has to. -/
theorem Inv.frame (h : Inv s) (ho : s'.owners = s.owners) (hht : s'.ht = s.ht)
    (hn : s'.nextMap = s.nextMap) (hg : s'.given = s.given) (hlog : s'.log = s.log)
    (hm : ∀ m, (s'.maps m).blob = (s.maps m).blob ∧ (s'.maps m).func = (s.maps m).func ∧
      (s'.maps m).data = (s.maps m).data)
    (hact : ∀ m, (s'.maps m).pending = true ∨ (s'.maps m).running ≠ none ∨
      .scheduleReal m ∈ s'.calls → s.Live m)
    (hkill : ∀ m, .killClear m ∈ s.owners →
      (s'.maps m).pending = false ∧ (s'.maps m).running = none ∧ .scheduleReal m ∉ s'.calls)
    (hwake : ∀ m ∈ s.ht, s'.sched (s.maps m).blob = true →
      (s'.maps m).pending = true ∨ (s'.maps m).running = some .entered ∨
        .schedule (s.maps m).blob ∈ s'.calls ∨ .scheduleReal m ∈ s'.calls) : Inv s' where
  table := h.table.frame hht hn hg ho hm
  active := fun m hactive => (live_congr hht ho).mpr (hact m hactive)
  killed := by rw [ho]; exact hkill
  wake := by
    intro m hmem hsched
    rw [hht] at hmem
    rw [(hm m).1] at hsched ⊢
    exact hwake m hmem hsched
  log := by rw [hlog]; exact h.log

theorem schedule_inv (h : Inv s) (ht : s'.ht = s.ht) (hn : s'.nextMap = s.nextMap)
    (hg : s'.given = s.given) (hlog : s'.log = s.log) (hmaps : s'.maps = s.maps)
    (hcalls : s'.calls = .schedule t :: s.calls)
    (hsched : ∀ t', t' ≠ t → s'.sched t' = s.sched t') : Inv s' := by
  refine h.frame (owners_cons hcalls rfl) ht hn hg hlog (fun m => by simp [hmaps]) ?_ ?_ ?_
  · intro m hact
    exact h.active m (by simpa [hmaps, hcalls] using hact)
  · intro m hc
    simpa [hmaps, hcalls] using h.killed m hc
  · intro m hm hb
    rw [hmaps, hcalls]
    by_cases heq : (s.maps m).blob = t
    · exact .inr (.inr (.inl (by simp [heq])))
    · rw [hsched _ heq] at hb
      rcases h.wake m hm hb with hp | he | hs | hr
      · exact .inl hp
      · exact .inr (.inl he)
      · exact .inr (.inr (.inl (List.mem_cons_of_mem _ hs)))
      · exact .inr (.inr (.inr (List.mem_cons_of_mem _ hr)))

theorem blobSchedule_inv (h : Inv s) : Inv (blobSchedule s t) := by
  unfold blobSchedule
  split
  · exact h
  · exact schedule_inv h rfl rfl rfl rfl rfl rfl (fun t' hne => by simp [hne])

theorem lookup_inv (h : Inv s) (ok : Bool) :
    Inv (nextStep s (.schedule t) ok) := by
  simp only [nextStep]
  split
  · rename_i m hfind
    obtain ⟨hm, hblob⟩ := mem_of_mapFind hfind
    refine h.frame (owners_advance rfl rfl rfl) rfl rfl rfl rfl (fun _ => ⟨rfl, rfl, rfl⟩) ?_ ?_ ?_
    · rintro m' (hp | hr | hs)
      · exact h.active m' (.inl hp)
      · exact h.active m' (.inr (.inl hr))
      · rcases List.mem_cons.mp hs with heq | hs
        · rw [Call.scheduleReal.inj heq]
          exact .inl hm
        · exact h.active m' (.inr (.inr (List.mem_of_mem_erase hs)))
    · intro m' hk
      obtain ⟨hp, hr, hs⟩ := h.killed m' hk
      refine ⟨hp, hr, fun hmem => ?_⟩
      rcases List.mem_cons.mp hmem with heq | hmem
      · exact h.table.owned _ hk m' rfl (by rw [Call.scheduleReal.inj heq]; exact hm)
      · exact hs (List.mem_of_mem_erase hmem)
    · intro m' hm' hb
      rcases h.wake m' hm' hb with hp | he | hs | hr
      · exact .inl hp
      · exact .inr (.inl he)
      · by_cases heq : (s.maps m').blob = t
        · have hmm : m' = m := h.table.inj m' m (.inl hm') (.inl hm) (heq.trans hblob.symm)
          exact .inr (.inr (.inr (by rw [hmm]; exact List.mem_cons_self)))
        · refine .inr (.inr (.inl (List.mem_cons_of_mem _ ?_)))
          exact (List.mem_erase_of_ne (fun hcc => heq (Call.schedule.inj hcc))).mpr hs
      · refine .inr (.inr (.inr (List.mem_cons_of_mem _ ?_)))
        exact (List.mem_erase_of_ne (by simp)).mpr hr
  · rename_i hfind
    refine h.frame (owners_leave rfl rfl) rfl rfl rfl rfl (fun _ => ⟨rfl, rfl, rfl⟩) ?_ ?_ ?_
    · rintro m' (hp | hr | hs)
      · exact h.active m' (.inl hp)
      · exact h.active m' (.inr (.inl hr))
      · exact h.active m' (.inr (.inr (List.mem_of_mem_erase hs)))
    · intro m' hk
      obtain ⟨hp, hr, hs⟩ := h.killed m' hk
      exact ⟨hp, hr, fun hmem => hs (List.mem_of_mem_erase hmem)⟩
    · intro m' hm' hb
      have heq := blob_ne_of_mapFind hfind hm'
      rcases h.wake m' hm' hb with hp | he | hs | hr
      · exact .inl hp
      · exact .inr (.inl he)
      · refine .inr (.inr (.inl ?_))
        exact (List.mem_erase_of_ne (fun hcc => heq (Call.schedule.inj hcc))).mpr hs
      · refine .inr (.inr (.inr ?_))
        exact (List.mem_erase_of_ne (by simp)).mpr hr

theorem scheduleReal_inv (h : Inv s) (hc : .scheduleReal m ∈ s.calls) (ok : Bool) :
    Inv (nextStep s (.scheduleReal m) ok) := by
  have hother : ∀ m', m' ≠ m → (nextStep s (.scheduleReal m) ok).maps m' = s.maps m' := by
    intro m' hne
    simp [nextStep, State.leave, updMap_of_ne, hne]
  have hself : (nextStep s (.scheduleReal m) ok).maps m = { s.maps m with pending := true } := by
    simp [nextStep, State.leave]
  refine h.frame (owners_leave rfl rfl) rfl rfl rfl rfl (fun m' => ?_) ?_ ?_ ?_
  · by_cases hne : m' = m
    · rw [hne, hself]
      exact ⟨rfl, rfl, rfl⟩
    · rw [hother m' hne]
      exact ⟨rfl, rfl, rfl⟩
  · intro m' hact
    by_cases hne : m' = m
    · rw [hne]
      exact h.active m (.inr (.inr hc))
    · rw [hother m' hne] at hact
      rcases hact with hp | hr | hs
      · exact h.active m' (.inl hp)
      · exact h.active m' (.inr (.inl hr))
      · exact h.active m' (.inr (.inr (List.mem_of_mem_erase hs)))
  · intro m' hk
    obtain ⟨hp, hr, hs⟩ := h.killed m' hk
    have hne : m' ≠ m := by
      rintro rfl
      exact hs hc
    rw [hother m' hne]
    exact ⟨hp, hr, fun hmem => hs (List.mem_of_mem_erase hmem)⟩
  · intro m' hm' hb
    by_cases hne : m' = m
    · rw [hne, hself]
      exact .inl rfl
    · rw [hother m' hne]
      rcases h.wake m' hm' hb with hp | he | hs | hr
      · exact .inl hp
      · exact .inr (.inl he)
      · exact .inr (.inr (.inl ((List.mem_erase_of_ne (by simp)).mpr hs)))
      · refine .inr (.inr (.inr ?_))
        exact (List.mem_erase_of_ne (fun hcc => hne (Call.scheduleReal.inj hcc))).mpr hr

theorem clearBit_inv (h : Inv s) : Inv (s.clearBit t) := by
  refine h.frame rfl rfl rfl rfl rfl (fun _ => ⟨rfl, rfl, rfl⟩) h.active h.killed ?_
  intro m hm hb
  by_cases heq : (s.maps m).blob = t
  · simp [State.clearBit, heq] at hb
  · have hb' : s.sched (s.maps m).blob = true := by simpa [State.clearBit, heq] using hb
    exact h.wake m hm hb'

/-- A call that has nothing to do with the table or with scheduling returns. -/
theorem leave_inv (h : Inv s) (ht : c.table = false) (hs : ∀ t, c ≠ .schedule t)
    (hr : ∀ m, c ≠ .scheduleReal m) : Inv (s.leave c) := by
  refine h.frame (owners_leave rfl ht) rfl rfl rfl rfl (fun _ => ⟨rfl, rfl, rfl⟩) ?_ ?_ ?_
  · rintro m (hp | hrun | hmem)
    · exact h.active m (.inl hp)
    · exact h.active m (.inr (.inl hrun))
    · exact h.active m (.inr (.inr (List.mem_of_mem_erase hmem)))
  · intro m hk
    obtain ⟨hp, hrun, hnot⟩ := h.killed m hk
    exact ⟨hp, hrun, fun hmem => hnot (List.mem_of_mem_erase hmem)⟩
  · intro m hm hb
    rcases h.wake m hm hb with hp | he | hsch | hreal
    · exact .inl hp
    · exact .inr (.inl he)
    · exact .inr (.inr (.inl ((List.mem_erase_of_ne (hs _).symm).mpr hsch)))
    · exact .inr (.inr (.inr ((List.mem_erase_of_ne (hr _).symm).mpr hreal)))

theorem phase_inv (h : Inv s) (hl : s.Live m) (hk : .killClear m ∉ s.owners)
    {f : TaskletMap → TaskletMap} (hf : ∀ k, (f k).blob = k.blob ∧ (f k).func = k.func ∧
      (f k).data = k.data)
    (hwake : m ∈ s.ht → s.sched (s.maps m).blob = true →
      (f (s.maps m)).pending = true ∨ (f (s.maps m)).running = some .entered ∨
        .schedule (s.maps m).blob ∈ s.calls ∨ .scheduleReal m ∈ s.calls) :
    Inv (s.updMap m f) := by
  refine h.frame rfl rfl rfl rfl rfl (fun m' => ?_) (fun m' hact => ?_) (fun m' hkill => ?_)
    (fun m' hm' hb => ?_)
  · by_cases hne : m' = m
    · rw [hne, updMap_self]
      exact hf _
    · rw [updMap_of_ne _ hne]
      exact ⟨rfl, rfl, rfl⟩
  · by_cases hne : m' = m
    · rwa [hne]
    · rw [updMap_of_ne _ hne] at hact
      exact h.active m' hact
  · have hne : m' ≠ m := by
      rintro rfl
      exact hk hkill
    rw [updMap_of_ne _ hne]
    exact h.killed m' hkill
  · by_cases hne : m' = m
    · subst hne
      rw [updMap_self]
      exact hwake hm' hb
    · rw [updMap_of_ne _ hne]
      exact h.wake m' hm' hb

theorem softirq_inv (h : Inv s) : Inv (softirq s m) := by
  unfold softirq
  split
  · rename_i hcond
    obtain ⟨hp, hr⟩ : (s.maps m).pending = true ∧ (s.maps m).running = none := by
      simpa using hcond
    refine phase_inv h (h.active m (.inl hp)) (fun hk => ?_) (fun _ => ⟨rfl, rfl, rfl⟩)
      (fun _ _ => .inr (.inl rfl))
    rw [(h.killed m hk).1] at hp
    cases hp
  · exact h

theorem tramp_inv (h : Inv s) : Inv (tramp s m) := by
  have hlive : (s.maps m).running ≠ none → s.Live m ∧ .killClear m ∉ s.owners :=
    fun hr => ⟨h.active m (.inr (.inl hr)), fun hk => hr (h.killed m hk).2.1⟩
  simp only [tramp]
  split
  · rename_i hr
    obtain ⟨hl, hk⟩ := hlive (by simp [hr])
    refine phase_inv (clearBit_inv h) hl hk (fun _ => ⟨rfl, rfl, rfl⟩) (fun _ hb => ?_)
    have hfalse : (s.clearBit (s.maps m).blob).sched (s.maps m).blob = false := by
      simp [State.clearBit]
    exact absurd (hb.symm.trans hfalse) (by simp)
  · rename_i hr
    obtain ⟨hl, hk⟩ := hlive (by simp [hr])
    have hphase : Inv (s.updMap m fun k => { k with running := some .handled }) := by
      refine phase_inv h hl hk (fun _ => ⟨rfl, rfl, rfl⟩) (fun hm hb => ?_)
      rcases h.wake m hm hb with hp | he | hs
      · exact .inl hp
      · rw [hr] at he
        cases he
      · exact .inr (.inr hs)
    refine ⟨hphase.table.frame rfl rfl rfl rfl (fun _ => ⟨rfl, rfl, rfl⟩), hphase.active,
      hphase.killed, hphase.wake, fun r hmem => ?_⟩
    rcases List.mem_cons.mp hmem with rfl | hmem
    · exact ⟨((s.maps m).func, (s.maps m).data), h.table.given m hl, rfl⟩
    · exact h.log r hmem
  · rename_i hr
    obtain ⟨hl, hk⟩ := hlive (by simp [hr])
    refine phase_inv h hl hk (fun _ => ⟨rfl, rfl, rfl⟩) (fun hm hb => ?_)
    rcases h.wake m hm hb with hp | he | hs
    · exact .inl hp
    · rw [hr] at he
      cases he
    · exact .inr (.inr hs)
  · exact h

/-! ### Initialisations and deletions -/

theorem owners_next (hcalls : s'.calls = c' :: s.calls.erase c) (ht' : c'.table = true) :
    s'.owners = c' :: s.owners.erase c := by
  rw [State.owners, hcalls, List.filter_cons_of_pos ht', ← List.erase_filter]
  rfl

theorem owners_return (hcalls : s'.calls = s.calls.erase c) : s'.owners = s.owners.erase c := by
  rw [State.owners, hcalls, ← List.erase_filter]
  rfl

theorem initDup_inv (h : Inv s) {f d : Nat} (hfind : s.mapFind t = some m)
    (ht : s'.ht = s.ht) (hn : s'.nextMap = s.nextMap) (hs : s'.sched = s.sched)
    (hlog : s'.log = s.log)
    (hmaps : s'.maps = Function.update s.maps m { s.maps m with func := f, data := d })
    (hg : s'.given = Function.update s.given t (some (f, d)))
    (hcalls : s'.calls = .initClear t :: s.calls) : Inv s' := by
  obtain ⟨hm, hblob⟩ := mem_of_mapFind hfind
  have ho : s'.owners = s.owners := owners_cons hcalls rfl
  have hlive : ∀ m, s'.Live m ↔ s.Live m := fun _ => live_congr ht ho
  have hself : s'.maps m = { s.maps m with func := f, data := d } := by simp [hmaps]
  have hother : ∀ m', m' ≠ m → s'.maps m' = s.maps m' := by
    intro m' hne
    simp [hmaps, hne]
  have hb : ∀ m', (s'.maps m').blob = (s.maps m').blob ∧
      (s'.maps m').pending = (s.maps m').pending ∧ (s'.maps m').running = (s.maps m').running := by
    intro m'
    by_cases hne : m' = m
    · rw [hne, hself]
      exact ⟨rfl, rfl, rfl⟩
    · rw [hother m' hne]
      exact ⟨rfl, rfl, rfl⟩
  constructor
  · constructor
    · intro m' hl
      rw [hn]
      exact h.table.lt m' ((hlive m').mp hl)
    · intro m₁ m₂ h₁ h₂ heq
      rw [(hb m₁).1, (hb m₂).1] at heq
      exact h.table.inj m₁ m₂ ((hlive m₁).mp h₁) ((hlive m₂).mp h₂) heq
    · rw [ho, ht]
      exact h.table.owned
    · rw [ho]
      exact h.table.apart
    · intro t' f' d' hc
      rw [ho] at hc
      obtain ⟨hgiven, hne⟩ := h.table.fresh t' f' d' hc
      have htt : t' ≠ t := fun heq => hne m (.inl hm) (heq ▸ hblob)
      refine ⟨by simpa [hg, htt] using hgiven, fun m' hl => ?_⟩
      rw [(hb m').1]
      exact hne m' ((hlive m').mp hl)
    · intro m' hl
      by_cases hne : m' = m
      · subst hne
        rw [hself, hg, hblob]
        simp
      · have hblob' : (s.maps m').blob ≠ t := fun heq =>
          hne (h.table.inj m' m ((hlive m').mp hl) (.inl hm) (heq.trans hblob.symm))
        rw [hother m' hne, hg, Function.update_of_ne hblob']
        exact h.table.given m' ((hlive m').mp hl)
  · intro m' hact
    rw [(hb m').2.1, (hb m').2.2, hcalls] at hact
    exact (hlive m').mpr (h.active m' (by simpa using hact))
  · intro m' hk
    rw [ho] at hk
    rw [(hb m').2.1, (hb m').2.2, hcalls]
    simpa using h.killed m' hk
  · intro m' hm' hsched
    rw [ht] at hm'
    rw [(hb m').1, hs] at hsched
    rw [(hb m').1, (hb m').2.1, (hb m').2.2, hcalls]
    simpa using h.wake m' hm' hsched
  · rw [hlog]
    exact h.log

/-- A tasklet that is not mapped, and that no call initialises or deletes, has no entry. -/
theorem blob_ne_of_calm (hfind : s.mapFind t = none) (hcalm : ∀ c ∈ s.calls, ¬ s.Concerns c t)
    (hl : s.Live m) : (s.maps m).blob ≠ t := by
  rcases hl with hm | ⟨c, hc, howns⟩
  · exact blob_ne_of_mapFind hfind hm
  · intro heq
    refine hcalm c (List.mem_of_mem_filter hc) ?_
    cases c with
    | initPublish m' => cases howns; exact heq
    | killReal m' => cases howns; exact heq
    | killClear m' => cases howns; exact heq
    | _ => exact howns.elim

theorem initNew_inv (h : Inv s) {f d : Nat} (hfind : s.mapFind t = none)
    (hcalm : ∀ c ∈ s.calls, ¬ s.Concerns c t) :
    Inv { s with
      given := Function.update s.given t (some (f, d)), calls := .initFresh t f d :: s.calls } := by
  generalize hs' : ({ s with
    given := Function.update s.given t (some (f, d)),
    calls := .initFresh t f d :: s.calls } : State) = s'
  have hg : s'.given = Function.update s.given t (some (f, d)) := by rw [← hs']
  have hcalls : s'.calls = .initFresh t f d :: s.calls := by rw [← hs']
  have hmaps : s'.maps = s.maps := by rw [← hs']
  have hht : s'.ht = s.ht := by rw [← hs']
  have ho : s'.owners = .initFresh t f d :: s.owners := by
    rw [State.owners, hcalls, List.filter_cons_of_pos rfl]
    rfl
  have hlive : ∀ m, s'.Live m ↔ s.Live m := by
    intro m
    simp [State.Live, hht, ho, Call.owns]
  constructor
  · constructor
    · intro m hl
      rw [← hs']
      exact h.table.lt m ((hlive m).mp hl)
    · intro m m' hl hl' heq
      rw [hmaps] at heq
      exact h.table.inj m m' ((hlive m).mp hl) ((hlive m').mp hl') heq
    · intro c hc m howns
      rw [ho] at hc
      rw [hht]
      rcases List.mem_cons.mp hc with rfl | hc
      · exact howns.elim
      · exact h.table.owned c hc m howns
    · rw [ho, List.pairwise_cons]
      refine ⟨fun x hx => ⟨fun m howns => howns.elim, ?_⟩, h.table.apart⟩
      rintro t' f₁ d₁ f₂ d₂ heq rfl
      obtain ⟨rfl, _, _⟩ := Call.initFresh.inj heq
      exact hcalm _ (List.mem_of_mem_filter hx) rfl
    · intro t' f' d' hc
      rw [ho] at hc
      rw [hg, hmaps]
      rcases List.mem_cons.mp hc with heq | hc
      · obtain ⟨rfl, rfl, rfl⟩ := Call.initFresh.inj heq
        exact ⟨by simp, fun m hl => blob_ne_of_calm hfind hcalm ((hlive m).mp hl)⟩
      · have htt : t' ≠ t := fun heq => hcalm _ (List.mem_of_mem_filter hc) heq
        obtain ⟨hgiven, hne⟩ := h.table.fresh t' f' d' hc
        refine ⟨by rw [Function.update_of_ne htt]; exact hgiven, fun m hl => ?_⟩
        exact hne m ((hlive m).mp hl)
    · intro m hl
      have hne := blob_ne_of_calm hfind hcalm ((hlive m).mp hl)
      rw [hmaps, hg, Function.update_of_ne hne]
      exact h.table.given m ((hlive m).mp hl)
  · intro m hact
    rw [hmaps, hcalls] at hact
    exact (hlive m).mpr (h.active m (by simpa using hact))
  · intro m hk
    rw [ho] at hk
    rw [hmaps, hcalls]
    simpa using h.killed m (by simpa using hk)
  · intro m hm hsched
    rw [hht] at hm
    rw [hmaps] at hsched ⊢
    rw [hcalls]
    simpa using h.wake m hm (by rw [← hs'] at hsched; exact hsched)
  · rw [← hs']
    exact h.log

theorem taskletInit_inv (h : Inv s) {f d : Nat} (hcalm : Calm s (.taskletInit t f d)) :
    Inv (taskletInit s t f d) := by
  unfold taskletInit
  split
  · exact h
  split
  · rename_i m hfind
    exact initDup_inv h hfind rfl rfl rfl rfl rfl rfl rfl
  · rename_i hfind
    exact initNew_inv h hfind (hcalm hfind)

theorem scheduling_next {x : Call} (hcalls : s'.calls = c' :: s.calls.erase c)
    (hc : c.table = true) (hc' : c'.table = true) (hx : x.table = false) :
    x ∈ s'.calls ↔ x ∈ s.calls := by
  have hxc : x ≠ c := by
    rintro rfl
    rw [hc] at hx
    cases hx
  have hxc' : x ≠ c' := by
    rintro rfl
    rw [hc'] at hx
    cases hx
  rw [hcalls, List.mem_cons, List.mem_erase_of_ne hxc]
  exact or_iff_right hxc'

theorem scheduling_return {x : Call} (hcalls : s'.calls = s.calls.erase c)
    (hc : c.table = true) (hx : x.table = false) : x ∈ s'.calls ↔ x ∈ s.calls := by
  have hxc : x ≠ c := by
    rintro rfl
    rw [hc] at hx
    cases hx
  rw [hcalls, List.mem_erase_of_ne hxc]

theorem initFail_inv (h : Inv s) {f d : Nat} :
    Inv (nextStep s (.initFresh t f d) false) := by
  generalize hs' : nextStep s (.initFresh t f d) false = s'
  simp only [nextStep, State.leave, Bool.false_eq_true, if_false] at hs'
  have hcalls : s'.calls = s.calls.erase (.initFresh t f d) := by rw [← hs']
  have ho : s'.owners = s.owners.erase (.initFresh t f d) := owners_return hcalls
  have hsub : ∀ c ∈ s'.owners, c ∈ s.owners := by
    intro c hc
    rw [ho] at hc
    exact List.mem_of_mem_erase hc
  have hlive : ∀ m, s'.Live m ↔ s.Live m := by
    intro m
    simp only [State.Live]
    rw [show s'.ht = s.ht by rw [← hs']]
    refine or_congr Iff.rfl ⟨?_, ?_⟩
    · rintro ⟨c, hc, howns⟩
      exact ⟨c, hsub c hc, howns⟩
    · rintro ⟨c, hc, howns⟩
      refine ⟨c, ?_, howns⟩
      rw [ho, List.mem_erase_of_ne]
      · exact hc
      · rintro rfl
        exact howns
  have hmem : ∀ x : Call, x.table = false → (x ∈ s'.calls ↔ x ∈ s.calls) :=
    fun x hx => scheduling_return hcalls rfl hx
  constructor
  · constructor
    · intro m hl
      rw [← hs']
      exact h.table.lt m ((hlive m).mp hl)
    · intro m m' hl hl' heq
      rw [← hs'] at heq
      exact h.table.inj m m' ((hlive m).mp hl) ((hlive m').mp hl') heq
    · intro c hc m howns
      rw [← hs']
      exact h.table.owned c (hsub c hc) m howns
    · rw [ho]
      exact h.table.apart.sublist List.erase_sublist
    · intro t' f' d' hc
      obtain ⟨hgiven, hne⟩ := h.table.fresh t' f' d' (hsub _ hc)
      refine ⟨by rw [← hs']; exact hgiven, fun m hl => ?_⟩
      rw [← hs']
      exact hne m ((hlive m).mp hl)
    · intro m hl
      rw [← hs']
      exact h.table.given m ((hlive m).mp hl)
  · intro m hact
    rw [hmem _ rfl, show s'.maps = s.maps by rw [← hs']] at hact
    exact (hlive m).mpr (h.active m hact)
  · intro m hk
    rw [hmem _ rfl, show s'.maps = s.maps by rw [← hs']]
    exact h.killed m (hsub _ hk)
  · intro m hm hsched
    rw [hmem _ rfl, hmem _ rfl, show s'.maps = s.maps by rw [← hs']]
    rw [← hs'] at hm hsched
    exact h.wake m hm hsched
  · rw [← hs']
    exact h.log

theorem initEntry_inv (h : Inv s) {f d : Nat} (hc : .initFresh t f d ∈ s.calls) :
    Inv (nextStep s (.initFresh t f d) true) := by
  generalize hs' : nextStep s (.initFresh t f d) true = s'
  simp only [nextStep, State.advance, State.clearBit, if_true] at hs'
  have hcalls : s'.calls = .initPublish s.nextMap :: s.calls.erase (.initFresh t f d) := by
    rw [← hs']
  have ho : s'.owners = .initPublish s.nextMap :: s.owners.erase (.initFresh t f d) :=
    owners_next hcalls rfl
  have hself : s'.maps s.nextMap = { blob := t, func := f, data := d } := by simp [← hs']
  have hother : ∀ m, s.Live m → s'.maps m = s.maps m := by
    intro m hl
    have hne : m ≠ s.nextMap := Nat.ne_of_lt (h.table.lt m hl)
    simp [← hs', hne]
  have hht : s'.ht = s.ht := by rw [← hs']
  have hown := mem_owners hc rfl
  obtain ⟨hgiven, hnone⟩ := h.table.fresh t f d hown
  obtain ⟨hapart, hpair⟩ := apart_of_erase h.table.apart hown
  have hsub : ∀ c ∈ s'.owners, c = .initPublish s.nextMap ∨ c ∈ s.owners := by
    intro c hc
    rw [ho] at hc
    exact (List.mem_cons.mp hc).imp id List.mem_of_mem_erase
  have hlive : ∀ m, s'.Live m ↔ s.Live m ∨ m = s.nextMap := by
    intro m
    constructor
    · rintro (hm | ⟨c, hc, howns⟩)
      · exact .inl (.inl (hht ▸ hm))
      · rcases hsub c hc with rfl | hc
        · exact .inr howns.symm
        · exact .inl (.inr ⟨c, hc, howns⟩)
    · rintro ((hm | ⟨c, hc, howns⟩) | rfl)
      · exact .inl (hht ▸ hm)
      · refine .inr ⟨c, ?_, howns⟩
        rw [ho, List.mem_cons, List.mem_erase_of_ne]
        · exact .inr hc
        · rintro rfl
          exact howns
      · exact .inr ⟨.initPublish s.nextMap, by rw [ho]; exact List.mem_cons_self, rfl⟩
  have hmem : ∀ x : Call, x.table = false → (x ∈ s'.calls ↔ x ∈ s.calls) :=
    fun x hx => scheduling_next hcalls rfl rfl hx
  have hnlive : ¬ s.Live s.nextMap := fun hl => Nat.lt_irrefl _ (h.table.lt _ hl)
  have hg : s'.given = s.given := by rw [← hs']
  constructor
  · constructor
    · intro m hl
      have hn : s'.nextMap = s.nextMap + 1 := by rw [← hs']
      rw [hn]
      rcases (hlive m).mp hl with hl | rfl
      · exact Nat.lt_succ_of_lt (h.table.lt m hl)
      · exact Nat.lt_succ_self _
    · intro m m' hl hl' heq
      rcases (hlive m).mp hl with hl | rfl <;> rcases (hlive m').mp hl' with hl' | rfl
      · rw [hother m hl, hother m' hl'] at heq
        exact h.table.inj m m' hl hl' heq
      · rw [hother m hl, hself] at heq
        exact absurd heq (hnone m hl)
      · rw [hother m' hl', hself] at heq
        exact absurd heq.symm (hnone m' hl')
      · rfl
    · intro c hc m howns
      rw [hht]
      rcases hsub c hc with rfl | hc
      · rw [← howns]
        exact fun hm => hnlive (.inl hm)
      · exact h.table.owned c hc m howns
    · rw [ho, List.pairwise_cons]
      refine ⟨fun x hx => ⟨fun m howns hx' => ?_, (by intros; contradiction)⟩, hpair⟩
      refine hnlive (.inr ⟨x, List.mem_of_mem_erase hx, ?_⟩)
      rwa [← (show s.nextMap = m from howns)] at hx'
    · intro t' f' d' hc
      rw [ho] at hc
      have hc' := (List.mem_cons.mp hc).resolve_left (by rintro ⟨⟩)
      obtain ⟨hgiven', hnone'⟩ := h.table.fresh t' f' d' (List.mem_of_mem_erase hc')
      refine ⟨by rw [hg]; exact hgiven', fun m hl => ?_⟩
      rcases (hlive m).mp hl with hl | rfl
      · rw [hother m hl]
        exact hnone' m hl
      · rw [hself]
        rintro rfl
        exact (hapart _ hc').2 _ _ _ _ _ rfl rfl
    · intro m hl
      rcases (hlive m).mp hl with hl | rfl
      · rw [hother m hl, hg]
        exact h.table.given m hl
      · rw [hself, hg]
        exact hgiven
  · intro m hact
    refine (hlive m).mpr ?_
    by_cases hm : m = s.nextMap
    · exact .inr hm
    · left
      have hmaps : s'.maps m = s.maps m := by simp [← hs', hm]
      rw [hmaps, hmem _ rfl] at hact
      exact h.active m hact
  · intro m hk
    have hk' := (hsub _ hk).resolve_left (by rintro ⟨⟩)
    rw [hother m (.inr ⟨_, hk', rfl⟩), hmem _ rfl]
    exact h.killed m hk'
  · intro m hm hsched
    rw [hht] at hm
    rw [hother m (.inl hm)] at hsched ⊢
    rw [hmem _ rfl, hmem _ rfl]
    refine h.wake m hm ?_
    have hne := hnone m (.inl hm)
    simpa [← hs', hne] using hsched
  · rw [← hs']
    exact h.log

theorem initPublish_inv (h : Inv s) (hc : .initPublish m ∈ s.calls) (ok : Bool)
    (hcalm : s.sched (s.maps m).blob = true → .schedule (s.maps m).blob ∈ s.calls) :
    Inv (nextStep s (.initPublish m) ok) := by
  generalize hs' : nextStep s (.initPublish m) ok = s'
  simp only [nextStep, State.leave] at hs'
  have hcalls : s'.calls = s.calls.erase (.initPublish m) := by rw [← hs']
  have ho : s'.owners = s.owners.erase (.initPublish m) := owners_return hcalls
  have hown := mem_owners hc rfl
  obtain ⟨hapart, hpair⟩ := apart_of_erase h.table.apart hown
  have hsub : ∀ c ∈ s'.owners, c ∈ s.owners ∧ Apart (.initPublish m) c := by
    intro c hc
    rw [ho] at hc
    exact ⟨List.mem_of_mem_erase hc, hapart c hc⟩
  have hht : s'.ht = m :: s.ht := by rw [← hs']
  have hlive : ∀ m', s'.Live m' ↔ s.Live m' := by
    intro m'
    constructor
    · rintro (hm | ⟨c, hc, howns⟩)
      · rw [hht] at hm
        rcases List.mem_cons.mp hm with rfl | hm
        · exact .inr ⟨_, hown, rfl⟩
        · exact .inl hm
      · exact .inr ⟨c, (hsub c hc).1, howns⟩
    · rintro (hm | ⟨c, hc, howns⟩)
      · exact .inl (by rw [hht]; exact List.mem_cons_of_mem _ hm)
      · by_cases heq : c = .initPublish m
        · subst heq
          exact .inl (by rw [hht, ← (show m = m' from howns)]; exact List.mem_cons_self)
        · exact .inr ⟨c, by rw [ho]; exact (List.mem_erase_of_ne heq).mpr hc, howns⟩
  have hmem : ∀ x : Call, x.table = false → (x ∈ s'.calls ↔ x ∈ s.calls) :=
    fun x hx => scheduling_return hcalls rfl hx
  have hmaps : s'.maps = s.maps := by rw [← hs']
  constructor
  · constructor
    · intro m' hl
      rw [← hs']
      exact h.table.lt m' ((hlive m').mp hl)
    · intro m₁ m₂ h₁ h₂ heq
      rw [hmaps] at heq
      exact h.table.inj m₁ m₂ ((hlive m₁).mp h₁) ((hlive m₂).mp h₂) heq
    · intro c hmem' m' howns
      obtain ⟨hold, hap⟩ := hsub c hmem'
      rw [hht, List.mem_cons, not_or]
      refine ⟨?_, h.table.owned c hold m' howns⟩
      rintro rfl
      exact hap.1 _ rfl howns
    · rw [ho]
      exact hpair
    · intro t' f' d' hc
      obtain ⟨hgiven, hne⟩ := h.table.fresh t' f' d' (hsub _ hc).1
      rw [hmaps, show s'.given = s.given by rw [← hs']]
      exact ⟨hgiven, fun m' hl => hne m' ((hlive m').mp hl)⟩
    · intro m' hl
      rw [hmaps, show s'.given = s.given by rw [← hs']]
      exact h.table.given m' ((hlive m').mp hl)
  · intro m' hact
    rw [hmaps, hmem _ rfl] at hact
    exact (hlive m').mpr (h.active m' hact)
  · intro m' hk
    rw [hmaps, hmem _ rfl]
    exact h.killed m' (hsub _ hk).1
  · intro m' hm' hsched
    rw [hmaps, show s'.sched = s.sched by rw [← hs']] at hsched
    rw [hmaps, hmem _ rfl, hmem _ rfl]
    rw [hht] at hm'
    rcases List.mem_cons.mp hm' with rfl | hm'
    · exact .inr (.inr (.inl (hcalm hsched)))
    · exact h.wake m' hm' hsched
  · rw [← hs']
    exact h.log

theorem taskletKill_inv (h : Inv s) : Inv (taskletKill s t) := by
  generalize hs' : taskletKill s t = s'
  unfold taskletKill at hs'
  split at hs'
  · rename_i m hfind
    obtain ⟨hm, _⟩ := mem_of_mapFind hfind
    have hcalls : s'.calls = .killReal m :: s.calls := by rw [← hs']
    have ho : s'.owners = .killReal m :: s.owners := by
      rw [State.owners, hcalls, List.filter_cons_of_pos rfl]
      rfl
    have hht : ∀ m', m' ∈ s'.ht ↔ m' ∈ s.ht ∧ m' ≠ m := by
      intro m'
      simp [← hs', List.mem_filter]
    have hlive : ∀ m', s'.Live m' ↔ s.Live m' := by
      intro m'
      rw [State.Live, State.Live, hht, ho]
      constructor
      · rintro (hm' | ⟨c, hc, howns⟩)
        · exact .inl hm'.1
        · rcases List.mem_cons.mp hc with rfl | hc
          · rw [← (show m = m' from howns)]
            exact .inl hm
          · exact .inr ⟨c, hc, howns⟩
      · rintro (hm' | ⟨c, hc, howns⟩)
        · by_cases heq : m' = m
          · exact .inr ⟨_, List.mem_cons_self, heq.symm⟩
          · exact .inl ⟨hm', heq⟩
        · exact .inr ⟨c, List.mem_cons_of_mem _ hc, howns⟩
    have hmem : ∀ x : Call, x.table = false → (x ∈ s'.calls ↔ x ∈ s.calls) := by
      intro x hx
      rw [hcalls, List.mem_cons]
      refine or_iff_right ?_
      rintro rfl
      cases hx
    have hmaps : s'.maps = s.maps := by rw [← hs']
    constructor
    · constructor
      · intro m' hl
        rw [← hs']
        exact h.table.lt m' ((hlive m').mp hl)
      · intro m₁ m₂ h₁ h₂ heq
        rw [hmaps] at heq
        exact h.table.inj m₁ m₂ ((hlive m₁).mp h₁) ((hlive m₂).mp h₂) heq
      · intro c hc m' howns
        rw [hht]
        rw [ho] at hc
        rcases List.mem_cons.mp hc with rfl | hc
        · exact fun hmem => hmem.2 (show m = m' from howns).symm
        · exact fun hmem => h.table.owned c hc m' howns hmem.1
      · rw [ho, List.pairwise_cons]
        refine ⟨fun x hx => ⟨fun m' howns hx' => ?_, (by intros; contradiction)⟩, h.table.apart⟩
        rw [← (show m = m' from howns)] at hx'
        exact h.table.owned x hx m hx' hm
      · intro t' f' d' hc
        rw [ho] at hc
        obtain ⟨hgiven, hne⟩ :=
          h.table.fresh t' f' d' ((List.mem_cons.mp hc).resolve_left (by rintro ⟨⟩))
        rw [hmaps, show s'.given = s.given by rw [← hs']]
        exact ⟨hgiven, fun m' hl => hne m' ((hlive m').mp hl)⟩
      · intro m' hl
        rw [hmaps, show s'.given = s.given by rw [← hs']]
        exact h.table.given m' ((hlive m').mp hl)
    · intro m' hact
      rw [hmaps, hmem _ rfl] at hact
      exact (hlive m').mpr (h.active m' hact)
    · intro m' hk
      rw [ho] at hk
      rw [hmaps, hmem _ rfl]
      exact h.killed m' ((List.mem_cons.mp hk).resolve_left (by rintro ⟨⟩))
    · intro m' hm' hsched
      rw [hmaps, show s'.sched = s.sched by rw [← hs']] at hsched
      rw [hmaps, hmem _ rfl, hmem _ rfl]
      exact h.wake m' ((hht m').mp hm').1 hsched
    · rw [← hs']
      exact h.log
  · rw [← hs']
    exact h

theorem killReal_inv (h : Inv s) (hc : .killReal m ∈ s.calls) (ok : Bool)
    (hcalm : .scheduleReal m ∉ s.calls) : Inv (nextStep s (.killReal m) ok) := by
  simp only [nextStep]
  split
  · exact h
  rename_i hidle
  obtain ⟨hp, hr⟩ : (s.maps m).pending = false ∧ (s.maps m).running = none := by
    simpa using hidle
  generalize hs' : s.advance (.killReal m) (.killClear m) = s'
  have hcalls : s'.calls = .killClear m :: s.calls.erase (.killReal m) := by rw [← hs']; rfl
  have ho : s'.owners = .killClear m :: s.owners.erase (.killReal m) := owners_next hcalls rfl
  have hown := mem_owners hc rfl
  obtain ⟨hapart, hpair⟩ := apart_of_erase h.table.apart hown
  have hht : s'.ht = s.ht := by rw [← hs']; rfl
  have hmaps : s'.maps = s.maps := by rw [← hs']; rfl
  have hlive : ∀ m', s'.Live m' ↔ s.Live m' := by
    intro m'
    rw [State.Live, State.Live, hht, ho]
    refine or_congr Iff.rfl ⟨?_, ?_⟩
    · rintro ⟨c, hc, howns⟩
      rcases List.mem_cons.mp hc with rfl | hc
      · exact ⟨_, hown, howns⟩
      · exact ⟨c, List.mem_of_mem_erase hc, howns⟩
    · rintro ⟨c, hc, howns⟩
      by_cases heq : c = .killReal m
      · subst heq
        exact ⟨_, List.mem_cons_self, howns⟩
      · exact ⟨c, List.mem_cons_of_mem _ ((List.mem_erase_of_ne heq).mpr hc), howns⟩
  have hmem : ∀ x : Call, x.table = false → (x ∈ s'.calls ↔ x ∈ s.calls) :=
    fun x hx => scheduling_next hcalls rfl rfl hx
  constructor
  · constructor
    · intro m' hl
      rw [← hs']
      exact h.table.lt m' ((hlive m').mp hl)
    · intro m₁ m₂ h₁ h₂ heq
      rw [hmaps] at heq
      exact h.table.inj m₁ m₂ ((hlive m₁).mp h₁) ((hlive m₂).mp h₂) heq
    · intro c hc m' howns
      rw [hht]
      rw [ho] at hc
      rcases List.mem_cons.mp hc with rfl | hc
      · exact h.table.owned _ hown m' howns
      · exact h.table.owned c (List.mem_of_mem_erase hc) m' howns
    · rw [ho, List.pairwise_cons]
      exact ⟨fun x hx => ⟨(hapart x hx).1, (by intros; contradiction)⟩, hpair⟩
    · intro t' f' d' hc
      rw [ho] at hc
      have hc' := List.mem_of_mem_erase ((List.mem_cons.mp hc).resolve_left (by rintro ⟨⟩))
      obtain ⟨hgiven, hne⟩ := h.table.fresh t' f' d' hc'
      rw [hmaps, show s'.given = s.given by rw [← hs']; rfl]
      exact ⟨hgiven, fun m' hl => hne m' ((hlive m').mp hl)⟩
    · intro m' hl
      rw [hmaps, show s'.given = s.given by rw [← hs']; rfl]
      exact h.table.given m' ((hlive m').mp hl)
  · intro m' hact
    rw [hmaps, hmem _ rfl] at hact
    exact (hlive m').mpr (h.active m' hact)
  · intro m' hk
    rw [ho] at hk
    rw [hmaps, hmem _ rfl]
    rcases List.mem_cons.mp hk with heq | hk
    · rw [Call.killClear.inj heq]
      exact ⟨hp, hr, hcalm⟩
    · exact h.killed m' (List.mem_of_mem_erase hk)
  · intro m' hm' hsched
    rw [hmaps, show s'.sched = s.sched by rw [← hs']; rfl] at hsched
    rw [hmaps, hmem _ rfl, hmem _ rfl]
    rw [hht] at hm'
    exact h.wake m' hm' hsched
  · rw [← hs']
    exact h.log

theorem killClear_inv (h : Inv s) (hc : .killClear m ∈ s.calls) (ok : Bool) :
    Inv (nextStep s (.killClear m) ok) := by
  have hk := h.killed m (mem_owners hc rfl)
  have hclear := clearBit_inv h (t := (s.maps m).blob)
  generalize hs' : nextStep s (.killClear m) ok = s'
  simp only [nextStep, State.leave] at hs'
  have hcalls : s'.calls = s.calls.erase (.killClear m) := by rw [← hs']; rfl
  have ho : s'.owners = s.owners.erase (.killClear m) := owners_return hcalls
  have hsub : ∀ c ∈ s'.owners, c ∈ s.owners := by
    intro c hc
    rw [ho] at hc
    exact List.mem_of_mem_erase hc
  have hht : s'.ht = s.ht := by rw [← hs']; rfl
  have hmaps : s'.maps = s.maps := by rw [← hs']; rfl
  have hlive : ∀ m', s'.Live m' → s.Live m' := by
    rintro m' (hm | ⟨c, hc, howns⟩)
    · exact .inl (hht ▸ hm)
    · exact .inr ⟨c, hsub c hc, howns⟩
  have hmem : ∀ x : Call, x.table = false → (x ∈ s'.calls ↔ x ∈ s.calls) :=
    fun x hx => scheduling_return hcalls rfl hx
  constructor
  · constructor
    · intro m' hl
      rw [← hs']
      exact h.table.lt m' (hlive m' hl)
    · intro m₁ m₂ h₁ h₂ heq
      rw [hmaps] at heq
      exact h.table.inj m₁ m₂ (hlive m₁ h₁) (hlive m₂ h₂) heq
    · intro c hc m' howns
      rw [hht]
      exact h.table.owned c (hsub c hc) m' howns
    · rw [ho]
      exact h.table.apart.sublist List.erase_sublist
    · intro t' f' d' hc
      obtain ⟨hgiven, hne⟩ := h.table.fresh t' f' d' (hsub _ hc)
      rw [hmaps, show s'.given = s.given by rw [← hs']; rfl]
      exact ⟨hgiven, fun m' hl => hne m' (hlive m' hl)⟩
    · intro m' hl
      rw [hmaps, show s'.given = s.given by rw [← hs']; rfl]
      exact h.table.given m' (hlive m' hl)
  · intro m' hact
    rw [hmaps, hmem _ rfl] at hact
    rcases h.active m' hact with hm' | ⟨c, hc, howns⟩
    · exact .inl (hht ▸ hm')
    · by_cases heq : c = .killClear m
      · subst heq
        rw [← (show m = m' from howns)] at hact
        rw [hk.1, hk.2.1] at hact
        rcases hact with hp | hr | hs
        · cases hp
        · exact absurd rfl hr
        · exact absurd hs hk.2.2
      · exact .inr ⟨c, by rw [ho]; exact (List.mem_erase_of_ne heq).mpr hc, howns⟩
  · intro m' hk'
    rw [hmaps, hmem _ rfl]
    exact h.killed m' (hsub _ hk')
  · intro m' hm' hsched
    rw [hht] at hm'
    rw [hmaps, show s'.sched = (s.clearBit (s.maps m).blob).sched by rw [← hs']] at hsched
    rw [hmaps, hmem _ rfl, hmem _ rfl]
    exact hclear.wake m' hm' hsched
  · rw [← hs']
    exact h.log

theorem step_inv (h : Inv s) (e : Event) (hcalm : Calm s e) : Inv (step s e) := by
  cases e with
  | blobSchedule t => exact blobSchedule_inv h
  | callSchedule t => exact schedule_inv h rfl rfl rfl rfl rfl rfl (fun _ _ => rfl)
  | taskletInit t f d => exact taskletInit_inv h hcalm
  | taskletKill t => exact taskletKill_inv h
  | next c ok =>
      simp only [step]
      split
      · rename_i hc
        cases c with
        | initClear t =>
            exact leave_inv (clearBit_inv h) rfl (by rintro _ ⟨⟩) (by rintro _ ⟨⟩)
        | initFresh t f d =>
            cases ok with
            | true => exact initEntry_inv h hc
            | false => exact initFail_inv h
        | initPublish m => exact initPublish_inv h hc ok hcalm
        | schedule t => exact lookup_inv h ok
        | scheduleReal m => exact scheduleReal_inv h hc ok
        | killReal m => exact killReal_inv h hc ok hcalm
        | killClear m => exact killClear_inv h hc ok
      · exact h
  | softirq m => exact softirq_inv h
  | tramp m => exact tramp_inv h

end Steps

/-! ## Runs -/

theorem init_inv : Inv init := by
  have hlive : ∀ m, ¬ init.Live m := by
    rintro m (hm | ⟨c, hc, _⟩)
    · cases hm
    · cases hc
  refine ⟨⟨fun m hl => absurd hl (hlive m), fun m _ hl => absurd hl (hlive m),
    (by intros; contradiction), List.Pairwise.nil, (by intros; contradiction),
    fun m hl => absurd hl (hlive m)⟩, ?_, (by intros; contradiction), (by intros; contradiction),
    (by intros; contradiction)⟩
  rintro m (hp | hr | hs)
  · cases hp
  · exact absurd rfl hr
  · cases hs

theorem Inv.awake {s : State} (h : Inv s) : Awake s where
  wake := by
    intro m hm hsched hnone
    rcases h.wake m hm hsched with hp | he | hs | hr
    · exact .inl hp
    · exact .inr he
    · exact absurd rfl (hnone _ hs)
    · exact absurd rfl (hnone _ hr)
  handler := h.log

/-- **No wakeup is lost**, and each run calls the handler last given, in the runs whose
initialisations and deletions are left alone. -/
theorem no_lost_wakeup (es : List Event) (hcalm : Along step Calm init es) :
    Awake (run step init es) := by
  have hinv : Inv (run step init es) :=
    run_invariant (I := Inv) (C := Calm) (fun _ e h hc => step_inv h e hc) init_inv hcalm
  exact hinv.awake

/-- A tasklet is initialised, scheduled, run, initialised again with another handler, scheduled
and killed. -/
theorem no_lost_wakeup_up_down :
    Awake (run step init [.taskletInit 7 1 2, .next (.initFresh 7 1 2) true,
      .next (.initPublish 1) true, .blobSchedule 7, .next (.schedule 7) true,
      .next (.scheduleReal 1) true, .softirq 1, .tramp 1, .tramp 1, .tramp 1,
      .taskletInit 7 3 4, .next (.initClear 7) true, .blobSchedule 7, .next (.schedule 7) true,
      .next (.scheduleReal 1) true, .taskletKill 7, .softirq 1, .tramp 1, .tramp 1, .tramp 1,
      .next (.killReal 1) true, .next (.killClear 1) true]) :=
  no_lost_wakeup _ (by decide)

/-- **A schedule call between `clear_bit` and `hash_add` is lost.** The blob sets the bit of a
tasklet that is being initialised, the shim does not find the entry, and hashes it afterwards:
the bit stays set, no call is in progress, and nothing is pending. -/
theorem scheduled_before_hash_add : ¬ ∀ es, Awake (run step init es) := by
  intro h
  have hw := (h [.taskletInit 7 1 2, .next (.initFresh 7 1 2) true, .blobSchedule 7,
    .next (.schedule 7) true, .next (.initPublish 1) true]).wake 1 (by decide) (by decide)
    (by decide)
  exact absurd hw (by decide)

end BroadcomWl.Shadow.Tasklet
