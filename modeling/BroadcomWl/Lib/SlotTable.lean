import Mathlib
import BroadcomWl.Lib.Access
import BroadcomWl.Lib.Chain

/-!
# Hash tables in an array of slots

Each slot is in use or free, and has a key. The slots in use are threaded into chains, one for each
hash of a key. `Bucketed` is the part of the invariant that is about the chains as lists: it is kept
where a slot is erased from its chain (`Bucketed.remove`) and where a free slot is put into the
chain of a key that no slot has (`Bucketed.enter`). `Threaded` adds the links of `Chain`, and
`Known` says that a log of accesses tells which keys are in use.

A key that is not in the table gets a free slot, or else that of the least recently used one
(`pick`). `Entered` says what has been done to the slots and to the log when a key has been looked
up and entered, and `Removed` what when a slot has been given up. -/

namespace BroadcomWl.Lib

variable {ι κ β : Type}

/-! ## Chains as lists -/

/-- The chains hold exactly the slots in use, in the buckets of their keys, and no key is in use
twice. -/
structure Bucketed (hash : κ → β) (used : ι → Bool) (key : ι → κ) (chains : β → List ι) : Prop where
  nodup : ∀ b, (chains b).Nodup
  mem : ∀ b i, i ∈ chains b ↔ used i = true ∧ hash (key i) = b
  distinct : ∀ i j, used i = true → used j = true → key i = key j → i = j

namespace Bucketed

variable {hash : κ → β} {used used' : ι → Bool} {key key' : ι → κ} {chains : β → List ι}
  {i : ι} {k : κ}

theorem length_le [Fintype ι] (h : Bucketed hash used key chains) (b : β) :
    (chains b).length ≤ Fintype.card ι :=
  List.Nodup.length_le_card (h.nodup b)

theorem congr (h : Bucketed hash used key chains) (hused : ∀ i, used' i = used i)
    (hkey : ∀ i, key' i = key i) : Bucketed hash used' key' chains := by
  rw [funext hused, funext hkey]
  exact h

theorem not_mem (h : Bucketed hash used key chains) (hfree : used i = false) (b : β) :
    i ∉ chains b := by
  intro hmem
  rw [h.mem, hfree] at hmem
  cases hmem.1

/-- **A chain finds the slot of a key.** -/
theorem find [DecidableEq κ] (h : Bucketed hash used key chains) :
    (chains (hash k)).find? (fun i => key i = k) = some i ↔ used i = true ∧ key i = k := by
  constructor
  · intro hfind
    have hkey : key i = k := by simpa using List.find?_some hfind
    exact ⟨((h.mem _ i).mp (List.mem_of_find?_eq_some hfind)).1, hkey⟩
  · rintro ⟨hused, hkey⟩
    have hmem : i ∈ chains (hash k) := (h.mem _ i).mpr ⟨hused, by rw [hkey]⟩
    cases hfind : (chains (hash k)).find? (fun i => key i = k) with
    | none =>
        have hno := List.find?_eq_none.mp hfind i hmem
        exact absurd hkey (by simpa using hno)
    | some j =>
        have hj : key j = k := by simpa using List.find?_some hfind
        have hjused := ((h.mem _ j).mp (List.mem_of_find?_eq_some hfind)).1
        rw [h.distinct j i hjused hused (hj.trans hkey.symm)]

variable [DecidableEq ι] [DecidableEq β]

/-- **A slot is set free.** -/
theorem remove (h : Bucketed hash used key chains) (hi : used' i = false)
    (hused : ∀ j, j ≠ i → used' j = used j) (hkey : ∀ j, j ≠ i → key' j = key j) :
    Bucketed hash used' key'
      (Function.update chains (hash (key i)) ((chains (hash (key i))).erase i)) where
  nodup := by
    intro b
    by_cases hb : b = hash (key i)
    · rw [hb, Function.update_self]
      exact (h.nodup _).erase i
    · rw [Function.update_of_ne hb]
      exact h.nodup b
  mem := by
    intro b j
    by_cases hji : j = i
    · -- a slot is in no other chain than that of its key
      subst hji
      rw [hi]
      constructor
      · intro hmem
        by_cases hb : b = hash (key j)
        · rw [hb, Function.update_self] at hmem
          exact absurd hmem ((h.nodup _).not_mem_erase)
        · rw [Function.update_of_ne hb, h.mem] at hmem
          exact absurd hmem.2.symm hb
      · rintro ⟨hfalse, -⟩
        cases hfalse
    · rw [hused j hji, hkey j hji, ← h.mem]
      by_cases hb : b = hash (key i)
      · rw [hb, Function.update_self, (h.nodup _).mem_erase_iff]
        exact ⟨And.right, fun hmem => ⟨hji, hmem⟩⟩
      · rw [Function.update_of_ne hb]
  distinct := by
    intro j l hj hl
    have hji : j ≠ i := by
      rintro rfl
      rw [hi] at hj
      cases hj
    have hli : l ≠ i := by
      rintro rfl
      rw [hi] at hl
      cases hl
    rw [hkey j hji, hkey l hli]
    rw [hused j hji] at hj
    rw [hused l hli] at hl
    exact h.distinct j l hj hl

/-- **A free slot is entered** for a key that no slot has. -/
theorem enter (h : Bucketed hash used key chains) (hfree : used i = false)
    (hnew : ∀ j, used j = true → key j ≠ k) (hi : used' i = true) (hik : key' i = k)
    (hused : ∀ j, j ≠ i → used' j = used j) (hkey : ∀ j, j ≠ i → key' j = key j) :
    Bucketed hash used' key' (Function.update chains (hash k) (i :: chains (hash k))) where
  nodup := by
    intro b
    by_cases hb : b = hash k
    · rw [hb, Function.update_self]
      exact List.nodup_cons.mpr ⟨h.not_mem hfree _, h.nodup _⟩
    · rw [Function.update_of_ne hb]
      exact h.nodup b
  mem := by
    intro b j
    by_cases hji : j = i
    · subst hji
      rw [hi, hik]
      by_cases hb : b = hash k
      · rw [hb, Function.update_self]
        exact ⟨fun _ => ⟨rfl, rfl⟩, fun _ => List.mem_cons_self⟩
      · rw [Function.update_of_ne hb]
        constructor
        · intro hmem
          exact absurd hmem (h.not_mem hfree b)
        · rintro ⟨-, hb'⟩
          exact absurd hb'.symm hb
    · rw [hused j hji, hkey j hji, ← h.mem]
      by_cases hb : b = hash k
      · rw [hb, Function.update_self, List.mem_cons]
        exact or_iff_right hji
      · rw [Function.update_of_ne hb]
  distinct := by
    intro j l hj hl hjl
    by_cases hji : j = i
    · by_cases hli : l = i
      · rw [hji, hli]
      · rw [hji, hik, hkey l hli] at hjl
        rw [hused l hli] at hl
        exact absurd hjl.symm (hnew l hl)
    · rw [hused j hji] at hj
      by_cases hli : l = i
      · rw [hli, hik, hkey j hji] at hjl
        exact absurd hjl (hnew j hj)
      · rw [hkey j hji, hkey l hli] at hjl
        rw [hused l hli] at hl
        exact h.distinct j l hj hl hjl

end Bucketed

/-! ## The links -/

/-- The links thread the chains, and the chains hold the slots in use. -/
structure Threaded (hash : κ → β) (used : ι → Bool) (key : ι → κ) (next : ι → Option ι)
    (head : β → Option ι) (chains : β → List ι) : Prop where
  bucketed : Bucketed hash used key chains
  chain : ∀ b, IsChain next (head b) (chains b)

namespace Threaded

variable {hash : κ → β} {used used' : ι → Bool} {key key' : ι → κ} {next : ι → Option ι}
  {head : β → Option ι} {chains : β → List ι} {i : ι} {k : κ} {n : Nat}

theorem congr (h : Threaded hash used key next head chains) (hused : ∀ i, used' i = used i)
    (hkey : ∀ i, key' i = key i) : Threaded hash used' key' next head chains :=
  ⟨h.bucketed.congr hused hkey, h.chain⟩

variable [Fintype ι]

/-- **A search ends**, and finds just the slot of the key. -/
theorem search [DecidableEq κ] (h : Threaded hash used key next head chains)
    (hn : Fintype.card ι ≤ n) (k : κ) :
    ∃ r, walk next (fun i => key i = k) n (head (hash k)) = some r ∧
      ∀ i, r = some i ↔ used i = true ∧ key i = k :=
  ⟨_, walk_eq _ (h.chain (hash k)) ((h.bucketed.length_le _).trans hn),
    fun _ => h.bucketed.find⟩

variable [DecidableEq ι] [DecidableEq β]

/-- **Unlinking** a slot ends; then the slot can be set free. -/
theorem remove (h : Threaded hash used key next head chains) (hn : Fintype.card ι ≤ n) (i : ι) :
    ∃ next' p', unlink n next (head (hash (key i))) i = some (next', p') ∧
      ∀ {used' : ι → Bool} {key' : ι → κ}, used' i = false → (∀ j, j ≠ i → used' j = used j) →
        (∀ j, j ≠ i → key' j = key j) →
        Threaded hash used' key' next' (Function.update head (hash (key i)) p')
          (Function.update chains (hash (key i)) ((chains (hash (key i))).erase i)) := by
  obtain ⟨next', p', hunlink, hchain, hother⟩ := (h.chain (hash (key i))).unlink
    (h.bucketed.nodup _) ((h.bucketed.length_le _).trans hn) i
  refine ⟨next', p', hunlink, fun hi hused hkey => ⟨h.bucketed.remove hi hused hkey, ?_⟩⟩
  intro b
  by_cases hb : b = hash (key i)
  · rw [hb, Function.update_self, Function.update_self]
    exact hchain
  · rw [Function.update_of_ne hb, Function.update_of_ne hb]
    refine (h.chain b).congr fun j hj => hother j fun hj' => hb ?_
    -- the chains of different buckets have no slot in common
    exact ((h.bucketed.mem b j).mp hj).2.symm.trans ((h.bucketed.mem _ j).mp hj').2

omit [Fintype ι] in
/-- **A free slot is linked in** at the head of the chain of its new key. -/
theorem enter (h : Threaded hash used key next head chains) (hfree : used i = false)
    (hnew : ∀ j, used j = true → key j ≠ k) (hi : used' i = true) (hik : key' i = k)
    (hused : ∀ j, j ≠ i → used' j = used j) (hkey : ∀ j, j ≠ i → key' j = key j) :
    Threaded hash used' key' (Function.update next i (head (hash k)))
      (Function.update head (hash k) (some i))
      (Function.update chains (hash k) (i :: chains (hash k))) where
  bucketed := h.bucketed.enter hfree hnew hi hik hused hkey
  chain := by
    intro b
    by_cases hb : b = hash k
    · rw [hb, Function.update_self, Function.update_self]
      exact (h.chain _).push (h.bucketed.not_mem hfree _)
    · rw [Function.update_of_ne hb, Function.update_of_ne hb]
      refine (h.chain b).congr fun j hj => Function.update_of_ne ?_ _ _
      rintro rfl
      exact h.bucketed.not_mem hfree b hj

end Threaded

/-! ## The choice of a slot -/

section Pick

variable {τ : Type} [LinearOrder τ] {used : ι → Bool} {lastUse : ι → τ}

/-- The first slot that is free, else the least recently used one that was last used before
`oldest`; the flag says that it is in use. -/
def pick (used : ι → Bool) (lastUse : ι → τ) : List ι → τ → Option ι → Option (ι × Bool)
  | [], _, old => old.map fun i => (i, true)
  | i :: l, oldest, old =>
      if !used i then some (i, false)
      else if lastUse i < oldest then pick used lastUse l (lastUse i) (some i)
      else pick used lastUse l oldest old

theorem pick_free {l : List ι} {oldest : τ} {old : Option ι} {i : ι}
    (h : pick used lastUse l oldest old = some (i, false)) : used i = false := by
  induction l generalizing oldest old with
  | nil =>
      cases old with
      | none => cases h
      | some j => cases h
  | cons j l ih =>
      unfold pick at h
      split at h
      · rename_i hused
        cases h
        simpa using hused
      · split at h
        · exact ih h
        · exact ih h

/-- Where no slot is taken, all are in use, and none was last used before `oldest`. -/
theorem pick_none {l : List ι} {oldest : τ} {old : Option ι}
    (h : pick used lastUse l oldest old = none) :
    old = none ∧ ∀ j ∈ l, used j = true ∧ oldest ≤ lastUse j := by
  induction l generalizing oldest old with
  | nil =>
      refine ⟨?_, fun j hj => absurd hj List.not_mem_nil⟩
      cases old with
      | none => rfl
      | some j => cases h
  | cons i l ih =>
      unfold pick at h
      split at h
      · cases h
      · rename_i hused
        split at h
        · cases (ih h).1
        · rename_i hold
          obtain ⟨hnone, hall⟩ := ih h
          refine ⟨hnone, fun j hj => ?_⟩
          rcases List.mem_cons.mp hj with rfl | hj
          · exact ⟨by simpa using hused, not_lt.mp hold⟩
          · exact hall j hj

/-- Where a slot in use is taken, all are in use, and it is the least recently used one. -/
theorem pick_used {l : List ι} {oldest : τ} {old : Option ι} {i : ι}
    (h : pick used lastUse l oldest old = some (i, true))
    (hold : ∀ j, old = some j → lastUse j = oldest) :
    (∀ j ∈ l, used j = true ∧ lastUse i ≤ lastUse j) ∧ lastUse i ≤ oldest
      ∧ (old = none → lastUse i < oldest) := by
  induction l generalizing oldest old with
  | nil =>
      cases old with
      | none => cases h
      | some j =>
          cases h
          exact ⟨fun j hj => absurd hj List.not_mem_nil, (hold i rfl).le, by rintro ⟨⟩⟩
  | cons k l ih =>
      unfold pick at h
      split at h
      · cases h
      · rename_i hused
        have hkused : used k = true := by simpa using hused
        split at h
        · rename_i hlt
          obtain ⟨hall, hle, -⟩ := ih h (fun j hj => congrArg lastUse (Option.some.inj hj).symm)
          refine ⟨fun j hj => ?_, hle.trans hlt.le, fun _ => hle.trans_lt hlt⟩
          rcases List.mem_cons.mp hj with rfl | hj
          · exact ⟨hkused, hle⟩
          · exact hall j hj
        · rename_i hge
          obtain ⟨hall, hle, hlt⟩ := ih h hold
          refine ⟨fun j hj => ?_, hle, hlt⟩
          rcases List.mem_cons.mp hj with rfl | hj
          · exact ⟨hkused, hle.trans (not_lt.mp hge)⟩
          · exact hall j hj

end Pick

/-- Emptying a slot brings no key into the table. -/
theorem vacated [DecidableEq ι] {σ : Type} (used : σ → Bool) (key : σ → κ)
    {sta sta' : ι → σ} {i : ι} {s : σ} {k : κ} (hsta : sta' = Function.update sta i s)
    (hs : used s = false) (hnew : ∀ j, used (sta j) = true → key (sta j) ≠ k) :
    used (sta' i) = false ∧ ∀ j, used (sta' j) = true → key (sta' j) ≠ k := by
  subst hsta
  constructor
  · rw [Function.update_self]
    exact hs
  · intro j hj
    by_cases hji : j = i
    · rw [hji, Function.update_self, hs] at hj
      cases hj
    · rw [Function.update_of_ne hji] at hj ⊢
      exact hnew j hj

/-! ## What is done to the slots -/

/-- A key has been looked up and, if it was in no slot, entered at the time `now`: `used`, `key`,
`lastUse` and `log` are those before, and `used'`, `key'` and `log'` those after. -/
inductive Entered {τ : Type} [LinearOrder τ] (used : ι → Bool) (key : ι → κ) (lastUse : ι → τ)
    (log : List (Access κ)) (k : κ) (now : τ) (used' : ι → Bool) (key' : ι → κ)
    (log' : List (Access κ)) : Option ι → Prop
  | found {i : ι} (hin : used i = true) (hkey : key i = k) (hused' : used' i = true)
      (hkey' : key' i = k) (hlog : log' = log) :
      Entered used key lastUse log k now used' key' log' (some i)
  | free {i : ι} (hnew : ∀ j, used j = true → key j ≠ k) (hfree : used i = false)
      (hused' : used' i = true) (hkey' : key' i = k) (hlog : log' = .alloc k :: log) :
      Entered used key lastUse log k now used' key' log' (some i)
  /-- The least recently used key makes room. -/
  | evicted {i : ι} (hnew : ∀ j, used j = true → key j ≠ k)
      (hleast : ∀ j, used j = true ∧ lastUse i ≤ lastUse j) (hold : lastUse i < now)
      (hused' : used' i = true) (hkey' : key' i = k)
      (hlog : log' = .alloc k :: .release (key i) :: log) :
      Entered used key lastUse log k now used' key' log' (some i)
  /-- There is no room: every slot is in use, and none was last used before `now`. -/
  | full (hnew : ∀ j, used j = true → key j ≠ k) (hfull : ∀ j, used j = true ∧ now ≤ lastUse j)
      (hlog : log' = log) : Entered used key lastUse log k now used' key' log' none

/-- A slot has been given up, which may have been free before. -/
structure Removed (used : ι → Bool) (key : ι → κ) (log : List (Access κ)) (i : ι) (used' : ι → Bool)
    (log' : List (Access κ)) : Prop where
  free : used' i = false
  log : log' = if used i then .release (key i) :: log else log

/-! ## The keys in use -/

/-- The keys in use are those that the log says were allocated and not released since. -/
def Known (used : ι → Bool) (key : ι → κ) (log : List (Access κ)) : Prop :=
  ∀ k, InUse k log ↔ ∃ i, used i = true ∧ key i = k

namespace Known

variable {used used' : ι → Bool} {key key' : ι → κ} {log : List (Access κ)} {i : ι} {k : κ}

theorem congr (h : Known used key log) (hused : ∀ i, used' i = used i)
    (hkey : ∀ i, key' i = key i) : Known used' key' log := by
  rw [funext hused, funext hkey]
  exact h

theorem enter (h : Known used key log) (hfree : used i = false) (hi : used' i = true)
    (hik : key' i = k) (hused : ∀ j, j ≠ i → used' j = used j)
    (hkey : ∀ j, j ≠ i → key' j = key j) : Known used' key' (.alloc k :: log) := by
  intro k'
  rw [inUse_alloc, h]
  constructor
  · rintro (rfl | ⟨j, hj, hjk⟩)
    · exact ⟨i, hi, hik⟩
    · have hji : j ≠ i := by
        rintro rfl
        rw [hfree] at hj
        cases hj
      exact ⟨j, by rw [hused j hji, hj], by rw [hkey j hji, hjk]⟩
  · rintro ⟨j, hj, hjk⟩
    by_cases hji : j = i
    · left
      rw [← hjk, hji, hik]
    · right
      rw [hused j hji] at hj
      rw [hkey j hji] at hjk
      exact ⟨j, hj, hjk⟩

theorem remove (h : Known used key log) (hin : used i = true) (hi : used' i = false)
    (hdistinct : ∀ j, used j = true → key j = key i → j = i)
    (hused : ∀ j, j ≠ i → used' j = used j) (hkey : ∀ j, j ≠ i → key' j = key j) :
    Known used' key' (.release (key i) :: log) := by
  intro k
  rw [inUse_release, h]
  constructor
  · rintro ⟨hne, j, hj, hjk⟩
    have hji : j ≠ i := by
      rintro rfl
      exact hne hjk.symm
    exact ⟨j, by rw [hused j hji, hj], by rw [hkey j hji, hjk]⟩
  · rintro ⟨j, hj, hjk⟩
    by_cases hji : j = i
    · rw [hji, hi] at hj
      cases hj
    · rw [hused j hji] at hj
      rw [hkey j hji] at hjk
      refine ⟨?_, j, hj, hjk⟩
      rintro rfl
      exact hji (hdistinct j hj hjk)

theorem remove_free (h : Known used key log) (hfree : used i = false) (hi : used' i = false)
    (hused : ∀ j, j ≠ i → used' j = used j) (hkey : ∀ j, j ≠ i → key' j = key j) :
    Known used' key' log := by
  intro k
  rw [h]
  apply exists_congr
  intro j
  by_cases hji : j = i
  · rw [hji, hi, hfree]
    simp
  · rw [hused j hji, hkey j hji]

end Known

end BroadcomWl.Lib
