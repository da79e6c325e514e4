import BroadcomWl.Shadow.Timer

/-!
# The pending mark of the blob's timers

The blob reads whether a timer is pending from its own structure, where the shim maintains it,
while the kernel's timer is armed, dequeued and deleted in separate steps. The mark and the
kernel's timer can disagree while a call is in progress; the question is whether they agree again
when none is.

They do not in every run. The kernel's dequeue of a timer and the lock section of its trampoline
are two steps, and a timer that is added again between them loses its mark although it is armed
(`rearmed_while_expiring`). **`pending_coherent`**: in the runs in which the steps of `Calm` are
taken one after the other, the mark agrees with the kernel's timer in every state with no call in
progress, and each initialised timer has one entry in the map.
-/

namespace BroadcomWl.Shadow.Timer

open BroadcomWl.Lib

/-! ## What is in progress on an entry -/

/-- `add_timer` has marked the timer and has not armed it yet. -/
def Call.adds : Call → MapPtr → Bool
  | .addTest m _, m' => m = m'
  | .addMod m _, m' => m = m'
  | .addNew m _, m' => m = m'
  | _, _ => false

/-- `del_timer` has unmarked the timer and has not deleted it yet. -/
def Call.deletes : Call → MapPtr → Bool
  | .delReal m _ _, m' => m = m'
  | _, _ => false

/-- `init_timer_key` has deleted the timer and has not unmarked it yet. -/
def Call.clears : Call → MapPtr → Bool
  | .initClear m, m' => m = m'
  | _, _ => false

/-- The entry a call works on. -/
def Call.entry : Call → Option MapPtr
  | .initDup m => some m
  | .initClear m => some m
  | .initFresh _ => none
  | .addTest m _ => some m
  | .addMod m _ => some m
  | .addNew m _ => some m
  | .delReal m _ _ => some m

def State.Adding (s : State) (m : MapPtr) : Prop := ∃ c ∈ s.calls, c.adds m = true

def State.Deleting (s : State) (m : MapPtr) : Prop := ∃ c ∈ s.calls, c.deletes m = true

def State.Clearing (s : State) (m : MapPtr) : Prop := ∃ c ∈ s.calls, c.clears m = true

/-- The kernel has dequeued the timer and its trampoline is not past its lock section. -/
def TimerMap.entered (k : TimerMap) : Bool :=
  match k.running with
  | some (.entered _) => true
  | _ => false

instance (s : State) (m : MapPtr) : Decidable (s.Adding m) :=
  inferInstanceAs (Decidable (∃ c ∈ s.calls, c.adds m = true))

instance (s : State) (m : MapPtr) : Decidable (s.Deleting m) :=
  inferInstanceAs (Decidable (∃ c ∈ s.calls, c.deletes m = true))

instance (s : State) (m : MapPtr) : Decidable (s.Clearing m) :=
  inferInstanceAs (Decidable (∃ c ∈ s.calls, c.clears m = true))

/-! ## The condition and the property -/

/-- The steps that the shim's two halves of one change leave room for, and that it does not
guard against:

- `add_timer` marks a timer between the two halves of a deletion or of an initialisation;
- `del_timer` unmarks a timer between the two halves of an addition, or between the kernel's
  dequeue and the trampoline's lock section;
- `init_timer_key` deletes a timer that is being added, or fails to allocate, or hashes a second
  entry for a timer that was initialised by an overlapping call;
- a timer expires between the two halves of its deletion;
- the trampoline unmarks a timer that has been added again since the kernel dequeued it. -/
def Calm (s : State) : Event → Prop
  | .addTimer t => ∀ m ∈ s.mapFind t, ¬ s.Deleting m ∧ ¬ s.Clearing m
  | .delTimer t => ∀ m ∈ s.mapFind t, ¬ s.Adding m ∧ (s.maps m).entered = false
  | .next (.initDup m) _ => ¬ s.Adding m
  | .next (.initFresh t) ok => ok = true ∧ s.mapFind t = none
  | .expire m => ¬ s.Deleting m
  | .trampoline m => (s.maps m).entered = true → (s.maps m).queued = none ∧ ¬ s.Adding m
  | _ => True

instance (s : State) : (e : Event) → Decidable (Calm s e)
  | .initTimerKey _ => isTrue trivial
  | .addTimer t =>
      inferInstanceAs (Decidable (∀ m ∈ s.mapFind t, ¬ s.Deleting m ∧ ¬ s.Clearing m))
  | .delTimer t =>
      inferInstanceAs (Decidable (∀ m ∈ s.mapFind t, ¬ s.Adding m ∧ (s.maps m).entered = false))
  | .next (.initDup m) _ => inferInstanceAs (Decidable (¬ s.Adding m))
  | .next (.initFresh t) ok => inferInstanceAs (Decidable (ok = true ∧ s.mapFind t = none))
  | .next (.initClear _) _ => isTrue trivial
  | .next (.addTest _ _) _ => isTrue trivial
  | .next (.addMod _ _) _ => isTrue trivial
  | .next (.addNew _ _) _ => isTrue trivial
  | .next (.delReal _ _ _) _ => isTrue trivial
  | .expire m => inferInstanceAs (Decidable (¬ s.Deleting m))
  | .trampoline m => inferInstanceAs
      (Decidable ((s.maps m).entered = true → (s.maps m).queued = none ∧ ¬ s.Adding m))
  | .write _ _ _ _ => isTrue trivial

/-- What the blob may rely on in a state with no call in progress. -/
structure Coherent (s : State) : Prop where
  pending : ∀ m ∈ s.ht, s.pending (s.maps m).blob = true ↔
    (s.maps m).queued.isSome = true ∨ (s.maps m).entered = true
  unique : ∀ t ∈ s.inited, ∃! m, m ∈ s.ht ∧ (s.maps m).blob = t
  nodup : s.ht.Nodup

/-! ## The invariant -/

/-- The mark and the kernel's timer of one entry, with the calls that are between the two. -/
structure Agrees (s : State) (m : MapPtr) : Prop where
  clearing : s.Clearing m →
    (s.maps m).queued = none ∧ (s.maps m).entered = false ∧ ¬ s.Adding m
  deleting : s.Deleting m →
    s.pending (s.maps m).blob = false ∧ (s.maps m).entered = false ∧ ¬ s.Adding m
  idle : ¬ s.Clearing m → ¬ s.Deleting m → (s.pending (s.maps m).blob = true ↔
    (s.maps m).queued.isSome = true ∨ (s.maps m).entered = true ∨ s.Adding m)

/-- The map: an entry for each initialised timer, calls on entries of the map only, and nothing
of the kernel outside it. -/
structure MapInv (s : State) : Prop where
  nodup : s.ht.Nodup
  lt : ∀ m ∈ s.ht, m < s.nextMap
  inj : ∀ m ∈ s.ht, ∀ m' ∈ s.ht, (s.maps m).blob = (s.maps m').blob → m = m'
  inited : ∀ t ∈ s.inited, ∃ m ∈ s.ht, (s.maps m).blob = t
  calls : ∀ c ∈ s.calls, ∀ m, c.entry = some m → m ∈ s.ht
  outside : ∀ m, m ∉ s.ht → (s.maps m).queued = none ∧ (s.maps m).running = none

structure Inv (s : State) : Prop where
  map : MapInv s
  agrees : ∀ m ∈ s.ht, Agrees s m

/-! ## Lookups and calls after a step -/

section Lemmas

variable {s : State} {m m' : MapPtr} {t : Addr} {c : Call}

theorem mem_of_mapFind (h : s.mapFind t = some m) : m ∈ s.ht ∧ (s.maps m).blob = t := by
  have hp := List.find?_some h
  exact ⟨List.mem_of_find?_eq_some h, by simpa using hp⟩

theorem blob_ne_of_mapFind (h : s.mapFind t = none) (hm : m ∈ s.ht) : (s.maps m).blob ≠ t := by
  have hp := List.find?_eq_none.mp h m hm
  simpa using hp

theorem exists_erase {p : Call → Bool} {l : List Call} (hc : c ∈ l) :
    (∃ x ∈ l, p x = true) ↔ p c = true ∨ ∃ x ∈ l.erase c, p x = true := by
  constructor
  · rintro ⟨x, hx, hp⟩
    by_cases hxc : x = c
    · exact .inl (hxc ▸ hp)
    · exact .inr ⟨x, (List.mem_erase_of_ne hxc).mpr hx, hp⟩
  · rintro (hp | ⟨x, hx, hp⟩)
    · exact ⟨c, hc, hp⟩
    · exact ⟨x, List.mem_of_mem_erase hx, hp⟩

@[simp] theorem updMap_self (f : TimerMap → TimerMap) : (s.updMap m f).maps m = f (s.maps m) := by
  simp [State.updMap]

theorem updMap_of_ne (f : TimerMap → TimerMap) (h : m' ≠ m) :
    (s.updMap m f).maps m' = s.maps m' := by
  simp [State.updMap, h]

@[simp] theorem advance_maps {c' : Call} : (s.advance c c').maps = s.maps := rfl

@[simp] theorem leave_maps : (s.leave c).maps = s.maps := rfl

@[simp] theorem arm_self (e : Nat) :
    (s.arm m e).maps m = { s.maps m with queued := some s.armings, expires := e } := by
  simp [State.arm]

theorem arm_of_ne (e : Nat) (h : m' ≠ m) : (s.arm m e).maps m' = s.maps m' := by
  simp [State.arm, updMap_of_ne, h]

theorem pending_setPending_self (b : Bool) :
    (s.setPending m b).pending (s.maps m).blob = b := by
  cases b <;> simp [State.setPending, State.pending]

theorem pending_setPending_of_ne (b : Bool) (h : t ≠ (s.maps m).blob) :
    (s.setPending m b).pending t = s.pending t := by
  simp [State.setPending, State.pending, h]

end Lemmas

/-! ## Each step keeps the invariant -/

section Steps

variable {s s' : State} {m m' : MapPtr} {t : Addr} {c : Call}

/-- A step that hashes no entry and changes no entry outside the map keeps the map. -/
theorem MapInv.frame (h : MapInv s) (hht : s'.ht = s.ht) (hn : s'.nextMap = s.nextMap)
    (hb : ∀ m, (s'.maps m).blob = (s.maps m).blob)
    (hi : ∀ t ∈ s'.inited, t ∈ s.inited ∨ ∃ m ∈ s.ht, (s.maps m).blob = t)
    (hc : ∀ c ∈ s'.calls, c ∈ s.calls ∨ ∀ m, c.entry = some m → m ∈ s.ht)
    (ho : ∀ m, m ∉ s.ht → s'.maps m = s.maps m) : MapInv s' where
  nodup := by rw [hht]; exact h.nodup
  lt := by rw [hht, hn]; exact h.lt
  inj := by
    rw [hht]
    intro m hm m' hm' heq
    rw [hb, hb] at heq
    exact h.inj m hm m' hm' heq
  inited := by
    intro t ht
    rw [hht]
    rcases hi t ht with hold | ⟨m, hm, hblob⟩
    · obtain ⟨m, hm, hblob⟩ := h.inited t hold
      exact ⟨m, hm, by rw [hb, hblob]⟩
    · exact ⟨m, hm, by rw [hb, hblob]⟩
  calls := by
    intro c hcc m hm
    rw [hht]
    rcases hc c hcc with hold | hnew
    · exact h.calls c hold m hm
    · exact hnew m hm
  outside := by
    intro m hm
    rw [hht] at hm
    rw [ho m hm]
    exact h.outside m hm

theorem blob_ne (h : MapInv s) (hm : m ∈ s.ht) (hm' : m' ∈ s.ht) (hne : m' ≠ m) :
    (s.maps m').blob ≠ (s.maps m).blob :=
  fun heq => hne (h.inj m' hm' m hm heq)

/-- The calls of `l'` are those of `l`, up to calls on the entry `m`. -/
def SameExcept (m : MapPtr) (l l' : List Call) : Prop :=
  ∀ (p : Call → Bool), (∀ c, c.entry = some m → p c = false) → (∀ t, p (.initFresh t) = false) →
    ((∃ c ∈ l', p c = true) ↔ ∃ c ∈ l, p c = true)

theorem SameExcept.refl (l : List Call) : SameExcept m l l := fun _ _ _ => Iff.rfl

theorem SameExcept.cons (hc : c.entry = some m) (l : List Call) : SameExcept m l (c :: l) := by
  intro p hp _
  simp [hp c hc]

theorem SameExcept.erase {l : List Call} (hc : c.entry = some m) (hmem : c ∈ l) :
    SameExcept m l (l.erase c) := by
  intro p hp _
  rw [exists_erase hmem]
  simp [hp c hc]

theorem SameExcept.advance {l : List Call} {c' : Call} (hc : c.entry = some m)
    (hc' : c'.entry = some m) (hmem : c ∈ l) : SameExcept m l (c' :: l.erase c) := by
  intro p hp hf
  rw [SameExcept.cons hc' (l.erase c) p hp hf]
  exact SameExcept.erase hc hmem p hp hf

/-- An entry that a step does not touch, and on which no call moves between the two halves of a
change, agrees as before. -/
theorem Agrees.frame (h : Agrees s m) (hm : s'.maps m = s.maps m)
    (hp : s'.pending (s.maps m).blob = s.pending (s.maps m).blob)
    (hA : s'.Adding m ↔ s.Adding m) (hD : s'.Deleting m ↔ s.Deleting m)
    (hC : s'.Clearing m ↔ s.Clearing m) : Agrees s' m where
  clearing := by rw [hm, hC, hA]; exact h.clearing
  deleting := by rw [hm, hD, hA, hp]; exact h.deleting
  idle := by rw [hm, hC, hD, hA, hp]; exact h.idle

/-- **A step that touches one entry.** The others agree as before, so only the entry itself has
to be looked at. -/
theorem Inv.touch (h : Inv s) (hm : m ∈ s.ht) (hmap : MapInv s') (hht : s'.ht = s.ht)
    (hmaps : ∀ m', m' ≠ m → s'.maps m' = s.maps m')
    (hmem : ∀ t, t ≠ (s.maps m).blob → s'.pending t = s.pending t)
    (hcalls : SameExcept m s.calls s'.calls) (hself : Agrees s' m) : Inv s' := by
  refine ⟨hmap, fun m' hm' => ?_⟩
  rw [hht] at hm'
  by_cases hne : m' = m
  · rwa [hne]
  have hk := hmaps m' hne
  have hp := hmem _ (blob_ne h.map hm hm' hne)
  have hA : s'.Adding m' ↔ s.Adding m' :=
    hcalls (fun c => c.adds m')
      (fun c hc => by cases c <;> simp_all [Call.adds, Call.entry, Ne.symm hne]) (fun _ => rfl)
  have hD : s'.Deleting m' ↔ s.Deleting m' :=
    hcalls (fun c => c.deletes m')
      (fun c hc => by cases c <;> simp_all [Call.deletes, Call.entry, Ne.symm hne]) (fun _ => rfl)
  have hC : s'.Clearing m' ↔ s.Clearing m' :=
    hcalls (fun c => c.clears m')
      (fun c hc => by cases c <;> simp_all [Call.clears, Call.entry, Ne.symm hne]) (fun _ => rfl)
  exact (h.agrees m' hm').frame hk hp hA hD hC

theorem Inv.frame (h : Inv s) (hht : s'.ht = s.ht) (hn : s'.nextMap = s.nextMap)
    (hmaps : s'.maps = s.maps) (hi : s'.inited = s.inited) (hp : ∀ t, s'.pending t = s.pending t)
    (hcalls : s'.calls = s.calls) : Inv s' := by
  constructor
  · apply h.map.frame hht hn
    · intro m
      rw [hmaps]
    · intro t ht
      exact .inl (hi ▸ ht)
    · intro c hc
      exact .inl (hcalls ▸ hc)
    · intro m _
      rw [hmaps]
  · intro m hm
    rw [hht] at hm
    apply (h.agrees m hm).frame (by rw [hmaps]) (hp _)
    all_goals simp only [State.Adding, State.Deleting, State.Clearing, hcalls]

theorem Inv.start (h : Inv s) (hm : m ∈ s.ht) (hc : c.entry = some m)
    (hht : s'.ht = s.ht) (hn : s'.nextMap = s.nextMap) (hmaps : s'.maps = s.maps)
    (hi : s'.inited = s.inited) (hp : ∀ t, t ≠ (s.maps m).blob → s'.pending t = s.pending t)
    (hcalls : s'.calls = c :: s.calls)
    (hself : (s'.Adding m ↔ c.adds m = true ∨ s.Adding m) →
      (s'.Deleting m ↔ c.deletes m = true ∨ s.Deleting m) →
      (s'.Clearing m ↔ c.clears m = true ∨ s.Clearing m) → Agrees s' m) : Inv s' := by
  refine h.touch hm ?_ hht (fun m' _ => by rw [hmaps]) hp (hcalls ▸ SameExcept.cons hc _) ?_
  · apply h.map.frame hht hn
    · intro m'
      rw [hmaps]
    · intro t ht
      exact .inl (hi ▸ ht)
    · intro c' hc'
      rw [hcalls] at hc'
      rcases List.mem_cons.mp hc' with rfl | hc'
      · right
        intro m' hm'
        rw [hc] at hm'
        rw [← Option.some.inj hm']
        exact hm
      · exact .inl hc'
    · intro m' _
      rw [hmaps]
  · apply hself
    all_goals
      simp only [State.Adding, State.Deleting, State.Clearing, hcalls, List.exists_mem_cons_iff]

theorem Inv.next (h : Inv s) (hcs : c ∈ s.calls) (hc : c.entry = some m) (c' : Option Call)
    (hc' : ∀ x ∈ c', x.entry = some m)
    (hht : s'.ht = s.ht) (hn : s'.nextMap = s.nextMap)
    (hmaps : ∀ m', m' ≠ m → s'.maps m' = s.maps m')
    (hblob : (s'.maps m).blob = (s.maps m).blob)
    (hi : ∀ t ∈ s'.inited, t ∈ s.inited ∨ t = (s.maps m).blob)
    (hp : ∀ t, t ≠ (s.maps m).blob → s'.pending t = s.pending t)
    (hcalls : s'.calls = c'.toList ++ s.calls.erase c)
    (hself : ∀ RA RD RC : Prop,
      (s.Adding m ↔ c.adds m = true ∨ RA) → (s'.Adding m ↔ (∃ x ∈ c', x.adds m = true) ∨ RA) →
      (s.Deleting m ↔ c.deletes m = true ∨ RD) →
      (s'.Deleting m ↔ (∃ x ∈ c', x.deletes m = true) ∨ RD) →
      (s.Clearing m ↔ c.clears m = true ∨ RC) →
      (s'.Clearing m ↔ (∃ x ∈ c', x.clears m = true) ∨ RC) → Agrees s' m) : Inv s' := by
  have hm : m ∈ s.ht := h.map.calls c hcs m hc
  refine h.touch hm ?_ hht hmaps hp ?_ ?_
  · apply h.map.frame hht hn
    · intro m'
      by_cases hne : m' = m
      · rw [hne, hblob]
      · rw [hmaps m' hne]
    · intro t ht
      rcases hi t ht with hold | rfl
      · exact .inl hold
      · exact .inr ⟨m, hm, rfl⟩
    · intro x hx
      rw [hcalls, List.mem_append, Option.mem_toList] at hx
      rcases hx with hx | hx
      · right
        intro m' hm'
        rw [hc' x hx] at hm'
        rw [← Option.some.inj hm']
        exact hm
      · exact .inl (List.mem_of_mem_erase hx)
    · intro m' hm'
      exact hmaps m' (fun heq => hm' (heq ▸ hm))
  · rw [hcalls]
    cases c' with
    | none => exact SameExcept.erase hc hcs
    | some x => exact SameExcept.advance hc (hc' x rfl) hcs
  · have hnew : ∀ p : Call → Bool, (∃ x ∈ s'.calls, p x = true) ↔
        (∃ x ∈ c', p x = true) ∨ ∃ x ∈ s.calls.erase c, p x = true := by
      intro p
      cases c' <;> simp [hcalls]
    exact hself _ _ _ (exists_erase hcs) (hnew _) (exists_erase hcs) (hnew _) (exists_erase hcs)
      (hnew _)

theorem initTimerKey_inv (h : Inv s) : Inv (initTimerKey s t) := by
  unfold initTimerKey
  split
  · rename_i m hfind
    obtain ⟨hm, _⟩ := mem_of_mapFind hfind
    refine h.start hm rfl rfl rfl rfl rfl (fun _ _ => rfl) rfl (fun hA hD hC => ?_)
    exact (h.agrees m hm).frame rfl rfl (by simpa [Call.adds] using hA)
      (by simpa [Call.deletes] using hD) (by simpa [Call.clears] using hC)
  · constructor
    · refine h.map.frame rfl rfl (fun _ => rfl) (fun t ht => .inl ht) ?_ (fun _ _ => rfl)
      intro c hc
      rcases List.mem_cons.mp hc with rfl | hc
      · exact .inr (by intros; contradiction)
      · exact .inl hc
    · intro m hm
      refine (h.agrees m hm).frame rfl rfl ?_ ?_ ?_
      all_goals
        simp [State.Adding, State.Deleting, State.Clearing, Call.adds, Call.deletes, Call.clears]

theorem addTimer_inv (h : Inv s) (hcalm : Calm s (.addTimer t)) : Inv (addTimer s t) := by
  unfold addTimer
  split
  · rename_i m hfind
    obtain ⟨hm, _⟩ := mem_of_mapFind hfind
    obtain ⟨hnd, hnc⟩ := hcalm m hfind
    refine h.start hm rfl rfl rfl rfl rfl (fun _ ht => pending_setPending_of_ne true ht) rfl
      (fun hA hD hC => ?_)
    have hp : (s.setPending m true).pending (s.maps m).blob = true := pending_setPending_self true
    constructor
    · intro hcl
      exact absurd hcl (by rw [hC]; simpa [Call.clears] using hnc)
    · intro hdl
      exact absurd hdl (by rw [hD]; simpa [Call.deletes] using hnd)
    · intro _ _
      exact ⟨fun _ => .inr (.inr (hA.mpr (.inl (by simp [Call.adds])))), fun _ => hp⟩
  · exact h

theorem delTimer_inv (h : Inv s) (hcalm : Calm s (.delTimer t)) : Inv (delTimer s t) := by
  unfold delTimer
  split
  · rename_i m hfind
    obtain ⟨hm, _⟩ := mem_of_mapFind hfind
    obtain ⟨hna, hne⟩ := hcalm m hfind
    refine h.start hm rfl rfl rfl rfl rfl (fun _ ht => pending_setPending_of_ne false ht) rfl
      (fun hA hD hC => ?_)
    have hp : (s.setPending m false).pending (s.maps m).blob = false :=
      pending_setPending_self false
    constructor
    · intro hcl
      have hcl' : s.Clearing m := (hC.mp hcl).elim (by simp [Call.clears]) id
      refine ⟨((h.agrees m hm).clearing hcl').1, hne, ?_⟩
      rw [hA]
      simpa [Call.adds] using hna
    · intro _
      refine ⟨hp, hne, ?_⟩
      rw [hA]
      simpa [Call.adds] using hna
    · intro _ hnd
      exact absurd (hD.mpr (.inl (by simp [Call.deletes]))) hnd
  · exact h.frame rfl rfl rfl rfl (fun _ => rfl) rfl

theorem initDup_inv (h : Inv s) (hcs : .initDup m ∈ s.calls) (hcalm : ¬ s.Adding m) (ok : Bool) :
    Inv (nextStep s (.initDup m) ok) := by
  simp only [nextStep]
  split
  · exact h
  · rename_i hrun
    refine h.next hcs rfl (some (.initClear m)) (by simp [Call.entry]) rfl rfl
      (fun m' hne => by rw [advance_maps, updMap_of_ne _ hne]) (by rw [advance_maps, updMap_self])
      (fun t ht => .inl ht) (fun _ _ => rfl) rfl (fun RA RD RC hA hA' hD hD' hC hC' => ?_)
    have hent : (s.maps m).entered = false := by
      have hnone : (s.maps m).running = none := by simpa using hrun
      simp [TimerMap.entered, hnone]
    have hna : ¬ RA := fun hra => hcalm (hA.mpr (.inr hra))
    have hself : ((s.updMap m fun k => { k with queued := none }).advance (.initDup m)
        (.initClear m)).maps m = { s.maps m with queued := none } := by
      rw [advance_maps, updMap_self]
    constructor
    · intro _
      rw [hself, hA']
      exact ⟨rfl, hent, by simpa [Call.adds] using hna⟩
    · intro hdl
      rw [hself, hA']
      have hdl' : s.Deleting m := by simpa [hD, hD', Call.deletes] using hdl
      exact ⟨((h.agrees m (h.map.calls _ hcs m rfl)).deleting hdl').1, hent,
        by simpa [Call.adds] using hna⟩
    · intro hncl _
      exact absurd (hC'.mpr (.inl ⟨_, rfl, by simp [Call.clears]⟩)) hncl

theorem initClear_inv (h : Inv s) (hcs : .initClear m ∈ s.calls) (ok : Bool) :
    Inv (nextStep s (.initClear m) ok) := by
  have hm := h.map.calls _ hcs m rfl
  have hold := (h.agrees m hm).clearing ⟨_, hcs, by simp [Call.clears]⟩
  refine h.next hcs rfl none (by simp) rfl rfl (fun _ _ => rfl) rfl ?_
    (fun t ht => pending_setPending_of_ne false ht) rfl
    (fun RA RD RC hA hA' hD hD' hC hC' => ?_)
  · intro t ht
    rcases List.mem_cons.mp ht with rfl | ht
    · exact .inr rfl
    · exact .inl ht
  have hp : (s.setPending m false).pending (s.maps m).blob = false := pending_setPending_self false
  have hna : ¬ RA := fun hra => hold.2.2 (hA.mpr (.inr hra))
  constructor
  · intro _
    rw [hA']
    exact ⟨hold.1, hold.2.1, by simpa using hna⟩
  · intro _
    rw [hA']
    exact ⟨hp, hold.2.1, by simpa using hna⟩
  · intro _ _
    rw [hA']
    have hq : ((nextStep s (.initClear m) ok).maps m).queued = none := hold.1
    have he : ((nextStep s (.initClear m) ok).maps m).entered = false := hold.2.1
    have hp' : (nextStep s (.initClear m) ok).pending
        ((nextStep s (.initClear m) ok).maps m).blob = false := hp
    simp [hp', hq, he, hna]

theorem addTest_inv (h : Inv s) {e : Nat} (hcs : .addTest m e ∈ s.calls) (ok : Bool) :
    Inv (nextStep s (.addTest m e) ok) := by
  have hm := h.map.calls _ hcs m rfl
  simp only [nextStep]
  split
  · refine h.next hcs rfl (some (.addMod m e)) (by simp [Call.entry]) rfl rfl
      (fun _ _ => rfl) rfl (fun t ht => .inl ht) (fun _ _ => rfl) rfl
      (fun RA RD RC hA hA' hD hD' hC hC' => ?_)
    exact (h.agrees m hm).frame rfl rfl (by rw [hA, hA']; simp [Call.adds])
      (by rw [hD, hD']; simp [Call.deletes]) (by rw [hC, hC']; simp [Call.clears])
  · refine h.next hcs rfl (some (.addNew m e)) (by simp [Call.entry]) rfl rfl
      (fun _ _ => rfl) rfl (fun t ht => .inl ht) (fun _ _ => rfl) rfl
      (fun RA RD RC hA hA' hD hD' hC hC' => ?_)
    exact (h.agrees m hm).frame rfl rfl (by rw [hA, hA']; simp [Call.adds])
      (by rw [hD, hD']; simp [Call.deletes]) (by rw [hC, hC']; simp [Call.clears])

theorem added_inv (h : Inv s) {e : Nat} (hcs : c ∈ s.calls) (hc : c.entry = some m)
    (hadds : c.adds m = true) (hdel : c.deletes m = false) (hclr : c.clears m = false) {s₁ : State}
    (hht : s₁.ht = s.ht) (hn : s₁.nextMap = s.nextMap) (hi : s₁.inited = s.inited)
    (hmem : s₁.mem = s.mem) (hcalls : s₁.calls = s.calls)
    (hmaps : ∀ m', m' ≠ m → s₁.maps m' = s.maps m') {a : Nat}
    (hk : s₁.maps m = { s.maps m with queued := some a, expires := e }) : Inv (s₁.leave c) := by
  have hm := h.map.calls _ hcs m hc
  have hold := h.agrees m hm
  have hadd : s.Adding m := ⟨c, hcs, hadds⟩
  refine h.next hcs hc none (by simp) hht hn hmaps (by rw [leave_maps, hk])
    (fun t ht => .inl (by rw [← hi]; exact ht)) ?_ (by simp [State.leave, hcalls])
    (fun RA RD RC hA hA' hD hD' hC hC' => ?_)
  · intro t _
    simp [State.pending, State.leave, hmem]
  have hnc : ¬ s.Clearing m := fun hcl => (hold.clearing hcl).2.2 hadd
  have hnd : ¬ s.Deleting m := fun hdl => (hold.deleting hdl).2.2 hadd
  have hp : s.pending (s.maps m).blob = true := (hold.idle hnc hnd).mpr (.inr (.inr hadd))
  constructor
  · intro hcl
    exact absurd (hC.mpr (by simpa [hclr] using hC'.mp hcl)) hnc
  · intro hdl
    exact absurd (hD.mpr (by simpa [hdel] using hD'.mp hdl)) hnd
  · intro _ _
    rw [leave_maps, hk]
    refine ⟨fun _ => .inl rfl, fun _ => ?_⟩
    simpa [State.pending, State.leave, hmem] using hp

theorem addMod_inv (h : Inv s) {e : Nat} (hcs : .addMod m e ∈ s.calls) (ok : Bool) :
    Inv (nextStep s (.addMod m e) ok) :=
  added_inv h hcs rfl (by simp [Call.adds]) rfl rfl rfl rfl rfl rfl rfl
    (fun _ hne => arm_of_ne e hne) (arm_self e)

theorem addNew_inv (h : Inv s) {e : Nat} (hcs : .addNew m e ∈ s.calls) (ok : Bool) :
    Inv (nextStep s (.addNew m e) ok) := by
  simp only [nextStep]
  split
  · rename_i hq
    obtain ⟨a, ha⟩ := Option.isSome_iff_exists.mp hq
    refine added_inv h hcs rfl (by simp [Call.adds]) rfl rfl rfl rfl rfl rfl rfl
      (fun _ hne => updMap_of_ne _ hne) (a := a) (e := e) ?_
    rw [updMap_self, ← ha]
  · exact added_inv h hcs rfl (by simp [Call.adds]) rfl rfl rfl rfl rfl rfl rfl
      (fun _ hne => arm_of_ne e hne) (arm_self e)

theorem delReal_inv (h : Inv s) {a : Option Nat} {b : Bool} (hcs : .delReal m a b ∈ s.calls)
    (ok : Bool) : Inv (nextStep s (.delReal m a b) ok) := by
  have hm := h.map.calls _ hcs m rfl
  have hold := (h.agrees m hm).deleting ⟨_, hcs, by simp [Call.deletes]⟩
  have hk : (nextStep s (.delReal m a b) ok).maps m = { s.maps m with queued := none } := by
    simp [nextStep]
  refine h.next hcs rfl none (by simp) rfl rfl
    (fun m' hne => by simp [nextStep, updMap_of_ne _ hne]) (by rw [hk]) (fun t ht => .inl ht)
    (fun _ _ => rfl) rfl (fun RA RD RC hA hA' hD hD' hC hC' => ?_)
  have hna : ¬ RA := fun hra => hold.2.2 (hA.mpr (.inr hra))
  have hna' : ¬ (nextStep s (.delReal m a b) ok).Adding m := by
    rw [hA']
    simpa using hna
  have hp : (nextStep s (.delReal m a b) ok).pending (s.maps m).blob = false := hold.1
  have he : { s.maps m with queued := none : TimerMap }.entered = false := hold.2.1
  constructor
  · intro _
    rw [hk]
    exact ⟨rfl, he, hna'⟩
  · intro _
    rw [hk]
    exact ⟨hp, he, hna'⟩
  · intro _ _
    rw [hk]
    simp [hp, he, hna']

theorem idle_of_not_mem (h : MapInv s) (hm : m ∉ s.ht) :
    ¬ s.Adding m ∧ ¬ s.Deleting m ∧ ¬ s.Clearing m := by
  refine ⟨?_, ?_, ?_⟩
  · rintro ⟨c, hc, hp⟩
    refine hm (h.calls c hc m ?_)
    cases c <;> simp_all [Call.adds, Call.entry]
  · rintro ⟨c, hc, hp⟩
    refine hm (h.calls c hc m ?_)
    cases c <;> simp_all [Call.deletes, Call.entry]
  · rintro ⟨c, hc, hp⟩
    refine hm (h.calls c hc m ?_)
    cases c <;> simp_all [Call.clears, Call.entry]

theorem initFresh_inv (h : Inv s) (hcs : .initFresh t ∈ s.calls) (hfind : s.mapFind t = none) :
    Inv (nextStep s (.initFresh t) true) := by
  have hfresh : s.nextMap ∉ s.ht := fun hm => Nat.lt_irrefl _ (h.map.lt _ hm)
  have hne : ∀ m ∈ s.ht, m ≠ s.nextMap := fun m hm heq => hfresh (heq ▸ hm)
  have hself : (nextStep s (.initFresh t) true).maps s.nextMap = { blob := t } := by
    simp [nextStep, State.setPending]
  have hother : ∀ m, m ≠ s.nextMap → (nextStep s (.initFresh t) true).maps m = s.maps m := by
    intro m hm
    simp [nextStep, State.setPending, hm]
  have hp : ∀ t', (nextStep s (.initFresh t) true).pending t' =
      if t' = t then false else s.pending t' := by
    intro t'
    by_cases ht : t' = t <;> simp [nextStep, State.setPending, State.pending, State.leave, ht]
  have hcalls : ∀ p : Call → Bool, p (.initFresh t) = false →
      ((∃ c ∈ (nextStep s (.initFresh t) true).calls, p c = true) ↔ ∃ c ∈ s.calls, p c = true) := by
    intro p hpt
    rw [exists_erase hcs]
    simp [nextStep, State.setPending, State.leave, hpt]
  constructor
  · constructor
    · exact List.nodup_cons.mpr ⟨hfresh, h.map.nodup⟩
    · intro m hm
      rcases List.mem_cons.mp hm with rfl | hm
      · exact Nat.lt_succ_self _
      · exact Nat.lt_succ_of_lt (h.map.lt m hm)
    · intro m hm m' hm' heq
      rcases List.mem_cons.mp hm with rfl | hm <;> rcases List.mem_cons.mp hm' with rfl | hm'
      · rfl
      · rw [hself, hother m' (hne m' hm')] at heq
        exact absurd heq.symm (blob_ne_of_mapFind hfind hm')
      · rw [hself, hother m (hne m hm)] at heq
        exact absurd heq (blob_ne_of_mapFind hfind hm)
      · rw [hother m (hne m hm), hother m' (hne m' hm')] at heq
        exact h.map.inj m hm m' hm' heq
    · intro t' ht'
      rcases List.mem_cons.mp ht' with rfl | ht'
      · exact ⟨s.nextMap, List.mem_cons_self, by rw [hself]⟩
      · obtain ⟨m, hm, hblob⟩ := h.map.inited t' ht'
        exact ⟨m, List.mem_cons_of_mem _ hm, by rw [hother m (hne m hm), hblob]⟩
    · intro c hc m hm
      exact List.mem_cons_of_mem _ (h.map.calls c (List.mem_of_mem_erase hc) m hm)
    · intro m hm
      have hm' : m ≠ s.nextMap ∧ m ∉ s.ht := by simpa [nextStep] using hm
      rw [hother m hm'.1]
      exact h.map.outside m hm'.2
  · intro m hm
    rcases List.mem_cons.mp hm with rfl | hm
    · obtain ⟨hna, hnd, hnc⟩ := idle_of_not_mem h.map hfresh
      constructor
      · intro hcl
        exact absurd ((hcalls (fun c => c.clears s.nextMap) rfl).mp hcl) hnc
      · intro hdl
        exact absurd ((hcalls (fun c => c.deletes s.nextMap) rfl).mp hdl) hnd
      · intro _ _
        have hna' : ¬ (nextStep s (.initFresh t) true).Adding s.nextMap :=
          fun hadd => hna ((hcalls (fun c => c.adds s.nextMap) rfl).mp hadd)
        rw [hself, hp]
        simp [hna', TimerMap.entered]
    · refine (h.agrees m hm).frame (hother m (hne m hm)) ?_
        (hcalls (fun c => c.adds m) rfl) (hcalls (fun c => c.deletes m) rfl)
        (hcalls (fun c => c.clears m) rfl)
      rw [hp, if_neg (blob_ne_of_mapFind hfind hm)]

/-- A step of the kernel or of a trampoline, which changes one entry and no call. -/
theorem Inv.entry (h : Inv s) (hm : m ∈ s.ht) (hht : s'.ht = s.ht) (hn : s'.nextMap = s.nextMap)
    (hmaps : ∀ m', m' ≠ m → s'.maps m' = s.maps m')
    (hblob : (s'.maps m).blob = (s.maps m).blob) (hi : s'.inited = s.inited)
    (hp : ∀ t, t ≠ (s.maps m).blob → s'.pending t = s.pending t) (hcalls : s'.calls = s.calls)
    (hself : (s'.Adding m ↔ s.Adding m) → (s'.Deleting m ↔ s.Deleting m) →
      (s'.Clearing m ↔ s.Clearing m) → Agrees s' m) : Inv s' := by
  refine h.touch hm ?_ hht hmaps hp (hcalls ▸ SameExcept.refl _) ?_
  · apply h.map.frame hht hn
    · intro m'
      by_cases hne : m' = m
      · rw [hne, hblob]
      · rw [hmaps m' hne]
    · intro t ht
      exact .inl (hi ▸ ht)
    · intro c hc
      exact .inl (hcalls ▸ hc)
    · intro m' hm'
      exact hmaps m' (fun heq => hm' (heq ▸ hm))
  · apply hself
    all_goals simp only [State.Adding, State.Deleting, State.Clearing, hcalls]

theorem expire_inv (h : Inv s) (hcalm : ¬ s.Deleting m) : Inv (expire s m) := by
  unfold expire
  split
  · rename_i a hq hr
    have hm : m ∈ s.ht := by
      by_contra hm
      rw [(h.map.outside m hm).1] at hq
      cases hq
    refine h.entry hm rfl rfl (fun _ hne => updMap_of_ne _ hne) (by rw [updMap_self]) rfl
      (fun _ _ => rfl) rfl (fun hA hD hC => ?_)
    have hold := h.agrees m hm
    have hncl : ¬ s.Clearing m := fun hcl => by
      have hnone := (hold.clearing hcl).1
      rw [hq] at hnone
      cases hnone
    constructor
    · intro hcl
      exact absurd (hC.mp hcl) hncl
    · intro hdl
      exact absurd (hD.mp hdl) hcalm
    · intro _ _
      rw [updMap_self]
      have hp : s.pending (s.maps m).blob = true :=
        (hold.idle hncl hcalm).mpr (.inl (by simp [hq]))
      exact ⟨fun _ => .inr (.inl rfl), fun _ => hp⟩
  · exact h

/-- The trampoline after its lock section: nothing of the mark depends on it. -/
theorem running_inv (h : Inv s) (hm : m ∈ s.ht) (hne : (s.maps m).entered = false)
    {r : Option Tramp} (hr : ∀ a, r ≠ some (.entered a)) :
    Inv (s.updMap m fun k => { k with running := r }) := by
  refine h.entry hm rfl rfl (fun _ hne => updMap_of_ne _ hne) (by rw [updMap_self]) rfl
    (fun _ _ => rfl) rfl (fun hA hD hC => ?_)
  have hent : { s.maps m with running := r : TimerMap }.entered = false := by
    unfold TimerMap.entered
    split
    · rename_i a ha
      exact absurd ha (hr a)
    · rfl
  have hold := h.agrees m hm
  have hsame := hent.trans hne.symm
  constructor
  · rw [updMap_self, hsame, hC, hA]
    exact hold.clearing
  · rw [updMap_self, hsame, hD, hA]
    exact hold.deleting
  · rw [updMap_self, hsame, hC, hD, hA]
    exact hold.idle

theorem trampoline_inv (h : Inv s) (hcalm : Calm s (.trampoline m)) : Inv (trampoline s m) := by
  by_cases hm : m ∈ s.ht
  · unfold trampoline
    split
    · rename_i a hr
      have hent : (s.maps m).entered = true := by simp [TimerMap.entered, hr]
      obtain ⟨hq, hna⟩ := hcalm hent
      refine h.entry hm rfl rfl (fun _ hne => updMap_of_ne _ hne) (by rw [updMap_self]; rfl) rfl
        (fun _ ht => pending_setPending_of_ne false ht) rfl (fun hA hD hC => ?_)
      have hold := h.agrees m hm
      have hp : (s.setPending m false).pending (s.maps m).blob = false :=
        pending_setPending_self false
      constructor
      · intro hcl
        have hfalse := (hold.clearing (hC.mp hcl)).2.1
        rw [hent] at hfalse
        cases hfalse
      · intro hdl
        have hfalse := (hold.deleting (hD.mp hdl)).2.1
        rw [hent] at hfalse
        cases hfalse
      · intro _ _
        rw [updMap_self, hA]
        have hp' : ((s.setPending m false).updMap m fun k =>
            { k with running := some (.calling a (s.mem (s.maps m).blob).function
              (s.mem (s.maps m).blob).data) }).pending (s.maps m).blob = false := hp
        have hmaps : (s.setPending m false).maps m = s.maps m := rfl
        simp [hmaps, hp', hq, hna, TimerMap.entered]
    · rename_i a fn data hr
      have hinv := running_inv h hm (by simp [TimerMap.entered, hr])
        (r := some (.called a)) (by simp)
      split
      · exact hinv.frame rfl rfl rfl rfl (fun _ => rfl) rfl
      · exact hinv
    · rename_i a hr
      exact running_inv h hm (by simp [TimerMap.entered, hr]) (by simp)
    · exact h
  · have hr := (h.map.outside m hm).2
    simpa [trampoline, hr] using h

theorem step_inv (h : Inv s) (e : Event) (hcalm : Calm s e) : Inv (step s e) := by
  cases e with
  | initTimerKey t => exact initTimerKey_inv h
  | addTimer t => exact addTimer_inv h hcalm
  | delTimer t => exact delTimer_inv h hcalm
  | next c ok =>
      simp only [step]
      split
      · rename_i hc
        cases c with
        | initDup m => exact initDup_inv h hc hcalm ok
        | initClear m => exact initClear_inv h hc ok
        | initFresh t =>
            obtain ⟨rfl, hfind⟩ := hcalm
            exact initFresh_inv h hc hfind
        | addTest m e => exact addTest_inv h hc ok
        | addMod m e => exact addMod_inv h hc ok
        | addNew m e => exact addNew_inv h hc ok
        | delReal m a b => exact delReal_inv h hc ok
      · exact h
  | expire m => exact expire_inv h hcalm
  | trampoline m => exact trampoline_inv h hcalm
  | write t e f d =>
      refine h.frame rfl rfl rfl rfl (fun t' => ?_) rfl
      by_cases ht : t' = t
      · subst ht
        simp [step, State.pending]
      · simp [step, State.pending, ht]

end Steps

/-! ## Runs -/

theorem init_inv : Inv init where
  map :=
    ⟨List.nodup_nil, (by intros; contradiction), (by intros; contradiction),
      (by intros; contradiction), (by intros; contradiction), fun _ _ => ⟨rfl, rfl⟩⟩
  agrees := (by intros; contradiction)

theorem Inv.coherent {s : State} (h : Inv s) (hquiet : s.calls = []) : Coherent s where
  pending := by
    intro m hm
    have hidle : ¬ s.Adding m ∧ ¬ s.Deleting m ∧ ¬ s.Clearing m := by
      simp [State.Adding, State.Deleting, State.Clearing, hquiet]
    have hiff := (h.agrees m hm).idle hidle.2.2 hidle.2.1
    simpa [hidle.1] using hiff
  unique := by
    intro t ht
    obtain ⟨m, hm, hblob⟩ := h.map.inited t ht
    refine ⟨m, ⟨hm, hblob⟩, ?_⟩
    rintro m' ⟨hm', hblob'⟩
    exact h.map.inj m' hm' m hm (hblob'.trans hblob.symm)
  nodup := h.map.nodup

/-- **The pending mark is coherent** in every state with no call in progress, in the runs whose
steps leave the two halves of each change alone. -/
theorem pending_coherent (es : List Event) (hcalm : Along step Calm init es)
    (hquiet : (run step init es).calls = []) : Coherent (run step init es) := by
  have hinv : Inv (run step init es) :=
    run_invariant (I := Inv) (C := Calm) (fun _ e h hc => step_inv h e hc) init_inv hcalm
  exact hinv.coherent hquiet

/-- A timer that is initialised, added, and has expired. -/
def armedOnce : List Event :=
  [.initTimerKey 7, .next (.initFresh 7) true, .write 7 100 1 2, .addTimer 7,
    .next (.addTest 1 100) true, .next (.addNew 1 100) true, .expire 1]

/-- The trampoline of a timer finishes before the timer is added again. -/
theorem pending_coherent_rearmed :
    Coherent (run step init (armedOnce ++ [.trampoline 1, .addTimer 7, .next (.addTest 1 100) true,
      .next (.addNew 1 100) true])) :=
  pending_coherent _ (by decide) (by decide)

/-- **A timer that is added while it expires loses its mark.** The kernel has dequeued it, the
blob adds it again, and the trampoline then clears the mark of the timer it does not belong to:
no call is in progress, the timer is armed, and the blob sees it idle. -/
theorem rearmed_while_expiring :
    ¬ ∀ es, (run step init es).calls = [] → Coherent (run step init es) := by
  intro h
  have hco := h (armedOnce ++ [.addTimer 7, .next (.addTest 1 100) true,
    .next (.addNew 1 100) true, .trampoline 1]) (by decide)
  exact absurd (hco.pending 1 (by decide)) (by decide)

end BroadcomWl.Shadow.Timer
