import BroadcomWl.Shadow.TimerPending

/-!
# The answer of `del_timer`

The driver drops a reference count when `del_timer` answers 1, so the answer has to be true: 1
only if the callback of the arming it cancelled does not run any more. The shim takes the answer
from the mark in the blob's timer, which the trampoline clears later than the kernel dequeues the
timer. In between `del_timer` answers 1 and the callback runs all the same
(`answered_while_expiring`).

**`del_timer_truthful`**: in the runs of `TimerPending.Calm`, where `kzalloc` may fail but no two
calls delete a timer at once, the answer is true. The proof follows the number of an arming: from
the lock section of `del_timer` on, the arming it found is on no wheel but the timer's own, and
after `timer_delete` it is nowhere. -/

namespace BroadcomWl.Shadow.Timer

open BroadcomWl.Lib

/-! ## The condition and the property -/

/-- The steps of `Calm`, and no two calls between the two halves of one deletion. `kzalloc` may
fail: a timer without an entry is never armed. -/
def CalmDelete (s : State) : Event → Prop
  | .delTimer t => Calm s (.delTimer t) ∧ ∀ m ∈ s.mapFind t, ¬ s.Deleting m ∧ ¬ s.Clearing m
  | .next (.initFresh t) ok => ok = true → s.mapFind t = none
  | e => Calm s e

theorem CalmDelete.calm {s : State} {e : Event} (h : CalmDelete s e)
    (hok : ∀ t, e ≠ .next (.initFresh t) false) : Calm s e := by
  cases e with
  | delTimer t => exact h.1
  | next c ok =>
      cases c with
      | initFresh t =>
          cases ok with
          | true => exact ⟨rfl, h rfl⟩
          | false => exact absurd rfl (hok t)
      | _ => exact h
  | _ => exact h

instance (s : State) : (e : Event) → Decidable (CalmDelete s e)
  | .delTimer t => inferInstanceAs (Decidable
      (Calm s (.delTimer t) ∧ ∀ m ∈ s.mapFind t, ¬ s.Deleting m ∧ ¬ s.Clearing m))
  | .initTimerKey t => inferInstanceAs (Decidable (Calm s (.initTimerKey t)))
  | .addTimer t => inferInstanceAs (Decidable (Calm s (.addTimer t)))
  | .next (.initFresh t) ok => inferInstanceAs (Decidable (ok = true → s.mapFind t = none))
  | .next (.initDup m) ok => inferInstanceAs (Decidable (Calm s (.next (.initDup m) ok)))
  | .next (.initClear m) ok => inferInstanceAs (Decidable (Calm s (.next (.initClear m) ok)))
  | .next (.addTest m e) ok => inferInstanceAs (Decidable (Calm s (.next (.addTest m e) ok)))
  | .next (.addMod m e) ok => inferInstanceAs (Decidable (Calm s (.next (.addMod m e) ok)))
  | .next (.addNew m e) ok => inferInstanceAs (Decidable (Calm s (.next (.addNew m e) ok)))
  | .next (.delReal m a b) ok => inferInstanceAs (Decidable (Calm s (.next (.delReal m a b) ok)))
  | .expire m => inferInstanceAs (Decidable (Calm s (.expire m)))
  | .trampoline m => inferInstanceAs (Decidable (Calm s (.trampoline m)))
  | .write t e f d => inferInstanceAs (Decidable (Calm s (.write t e f d)))

/-- The arming that a trampoline is running for. -/
def Tramp.arming : Tramp → Nat
  | .entered a => a
  | .calling a _ _ => a
  | .called a => a

/-- Every answer in the log is true. The log is newest first: `l₁` is what happened after the
call returned. -/
structure Truthful (s : State) : Prop where
  one : ∀ l₁ l₂ t a, s.log = l₁ ++ .deleted t a true :: l₂ →
    ∃ k, a = some k ∧ ∀ t' fn d, .called t' k fn d ∉ l₁
  zero : ∀ t a, .deleted t a false ∈ s.log → a = none ∨ ∃ k, a = some k ∧
    ((∃ t' fn d, .called t' k fn d ∈ s.log) ∨
      ∃ m r, (s.maps m).running = some r ∧ r.arming = k)

/-! ## The invariant -/

/-- The numbers of armings are used once. -/
structure Tickets (s : State) : Prop where
  queued_lt : ∀ m a, (s.maps m).queued = some a → a < s.armings
  running_lt : ∀ m r, (s.maps m).running = some r → r.arming < s.armings
  queued_inj : ∀ m m' a, (s.maps m).queued = some a → (s.maps m').queued = some a → m = m'
  queued_running : ∀ m m' a r, (s.maps m).queued = some a → (s.maps m').running = some r →
    r.arming ≠ a

/-- The arming `a` is on no wheel, except possibly on that of `m`, and no trampoline runs for
it. -/
structure Doomed (s : State) (m : Option MapPtr) (a : Nat) : Prop where
  lt : a < s.armings
  queued : ∀ m', some m' ≠ m → (s.maps m').queued ≠ some a
  running : ∀ m' r, (s.maps m').running = some r → r.arming ≠ a

/-- The log on its own: no callback for an arming that has been reported cancelled, and an
arming in a report exactly if the answer was 1. -/
def LogOk : List Obs → Prop
  | [] => True
  | .called _ a _ _ :: l => (∀ t, .deleted t (some a) true ∉ l) ∧ LogOk l
  | .deleted _ a answer :: l => a.isSome = answer ∧ LogOk l

structure AnswerInv (s : State) : Prop where
  inv : Inv s
  tickets : Tickets s
  deleting : ∀ m a b, .delReal m a b ∈ s.calls → a.isSome = b ∧ ∀ k ∈ a, Doomed s (some m) k
  deleted : ∀ t a, .deleted t (some a) true ∈ s.log → Doomed s none a
  log : LogOk s.log

/-! ## Each step keeps the invariant -/

section Steps

variable {s s' : State} {m : MapPtr} {t : Addr} {c : Call} {a : Nat}

theorem Doomed.mono {m : Option MapPtr} (h : Doomed s m a) (harm : s.armings ≤ s'.armings)
    (hq : ∀ m k, (s'.maps m).queued = some k → k < s.armings → (s.maps m).queued = some k)
    (hr : ∀ m r, (s'.maps m).running = some r →
      ∃ r', (s.maps m).running = some r' ∧ r'.arming = r.arming) : Doomed s' m a where
  lt := Nat.lt_of_lt_of_le h.lt harm
  queued := fun m' hne hqueued => h.queued m' hne (hq m' a hqueued h.lt)
  running := by
    intro m' r hrun
    obtain ⟨r', hrun', harming⟩ := hr m' r hrun
    rw [← harming]
    exact h.running m' r' hrun'

/-- **A step that arms nothing** and lets no timer expire keeps the invariant, as long as it
starts no deletion and reports nothing. -/
theorem AnswerInv.frame (h : AnswerInv s) (hinv : Inv s') (harm : s.armings ≤ s'.armings)
    (hq : ∀ m k, (s'.maps m).queued = some k → (s.maps m).queued = some k)
    (hr : ∀ m r, (s'.maps m).running = some r →
      ∃ r', (s.maps m).running = some r' ∧ r'.arming = r.arming)
    (hcalls : ∀ m a b, .delReal m a b ∈ s'.calls → .delReal m a b ∈ s.calls)
    (hlog : s'.log = s.log) : AnswerInv s' where
  inv := hinv
  tickets := by
    constructor
    · intro m k hk
      exact Nat.lt_of_lt_of_le (h.tickets.queued_lt m k (hq m k hk)) harm
    · intro m r hrun
      obtain ⟨r', hrun', harming⟩ := hr m r hrun
      rw [← harming]
      exact Nat.lt_of_lt_of_le (h.tickets.running_lt m r' hrun') harm
    · intro m m' k hk hk'
      exact h.tickets.queued_inj m m' k (hq m k hk) (hq m' k hk')
    · intro m m' k r hk hrun
      obtain ⟨r', hrun', harming⟩ := hr m' r hrun
      rw [← harming]
      exact h.tickets.queued_running m m' k r' (hq m k hk) hrun'
  deleting := by
    intro m a b hc
    obtain ⟨hsome, hdoom⟩ := h.deleting m a b (hcalls m a b hc)
    exact ⟨hsome, fun k hk => (hdoom k hk).mono harm (fun m k hk _ => hq m k hk) hr⟩
  deleted := by
    intro t k hk
    rw [hlog] at hk
    exact (h.deleted t k hk).mono harm (fun m k hk _ => hq m k hk) hr
  log := by rw [hlog]; exact h.log

theorem arm_answer (h : AnswerInv s) {e : Nat} (hinv : Inv ((s.arm m e).leave c)) :
    AnswerInv ((s.arm m e).leave c) := by
  have hqueued : ∀ m' k, (((s.arm m e).leave c).maps m').queued = some k →
      (m' = m ∧ k = s.armings) ∨ (s.maps m').queued = some k := by
    intro m' k hk
    by_cases hne : m' = m
    · subst hne
      rw [leave_maps, arm_self] at hk
      exact .inl ⟨rfl, (Option.some.inj hk).symm⟩
    · rw [leave_maps, arm_of_ne e hne] at hk
      exact .inr hk
  have hrunning : ∀ m', (((s.arm m e).leave c).maps m').running = (s.maps m').running := by
    intro m'
    by_cases hne : m' = m
    · subst hne
      rw [leave_maps, arm_self]
    · rw [leave_maps, arm_of_ne e hne]
  have hlt : ∀ k, k < s.armings → k < ((s.arm m e).leave c).armings := fun k hk =>
    Nat.lt_succ_of_lt hk
  have hold : ∀ m' k, (((s.arm m e).leave c).maps m').queued = some k → k < s.armings →
      (s.maps m').queued = some k := by
    intro m' k hk hlt
    rcases hqueued m' k hk with ⟨_, rfl⟩ | hold
    · exact absurd hlt (Nat.lt_irrefl _)
    · exact hold
  have hrun : ∀ m' r, (((s.arm m e).leave c).maps m').running = some r →
      ∃ r', (s.maps m').running = some r' ∧ r'.arming = r.arming := by
    intro m' r hr
    rw [hrunning] at hr
    exact ⟨r, hr, rfl⟩
  constructor
  · exact hinv
  · constructor
    · intro m' k hk
      rcases hqueued m' k hk with ⟨_, rfl⟩ | hold
      · exact Nat.lt_succ_self _
      · exact hlt k (h.tickets.queued_lt m' k hold)
    · intro m' r hr
      rw [hrunning] at hr
      exact hlt _ (h.tickets.running_lt m' r hr)
    · intro m₁ m₂ k h₁ h₂
      rcases hqueued m₁ k h₁ with ⟨rfl, rfl⟩ | hold₁ <;>
        rcases hqueued m₂ _ h₂ with ⟨rfl, hk⟩ | hold₂
      · rfl
      · exact absurd (h.tickets.queued_lt m₂ _ hold₂) (Nat.lt_irrefl _)
      · subst hk
        exact absurd (h.tickets.queued_lt m₁ _ hold₁) (Nat.lt_irrefl _)
      · exact h.tickets.queued_inj m₁ m₂ k hold₁ hold₂
    · intro m₁ m₂ k r h₁ hr
      rw [hrunning] at hr
      rcases hqueued m₁ k h₁ with ⟨rfl, rfl⟩ | hold₁
      · exact Nat.ne_of_lt (h.tickets.running_lt m₂ r hr)
      · exact h.tickets.queued_running m₁ m₂ k r hold₁ hr
  · intro m' a b hc
    obtain ⟨hsome, hdoom⟩ := h.deleting m' a b (List.mem_of_mem_erase hc)
    exact ⟨hsome, fun k hk => (hdoom k hk).mono (Nat.le_succ _) hold hrun⟩
  · intro t k hk
    exact (h.deleted t k hk).mono (Nat.le_succ _) hold hrun
  · exact h.log

/-- What `del_timer` finds in its lock section: the mark is that of the arming on the wheel. -/
theorem found_of_calm (h : AnswerInv s) (hm : m ∈ s.ht) (hna : ¬ s.Adding m)
    (hne : (s.maps m).entered = false) (hnd : ¬ s.Deleting m) (hnc : ¬ s.Clearing m) :
    (s.maps m).outstanding = (s.maps m).queued ∧
      s.pending (s.maps m).blob = (s.maps m).queued.isSome := by
  constructor
  · unfold TimerMap.outstanding
    split
    · rename_i hq
      exact hq.symm
    · rename_i a hr
      simp [TimerMap.entered, hr] at hne
    · rename_i hq _
      exact hq.symm
  · have hiff := (h.inv.agrees m hm).idle hnc hnd
    rw [Bool.eq_iff_iff, hiff]
    simp [hne, hna]

theorem delTimer_answer (h : AnswerInv s) (hcalm : CalmDelete s (.delTimer t)) :
    AnswerInv (delTimer s t) := by
  have hinv := delTimer_inv h.inv hcalm.1
  unfold delTimer at hinv ⊢
  split at hinv
  · rename_i m hfind
    obtain ⟨hm, hblob⟩ := mem_of_mapFind hfind
    obtain ⟨hna, hne⟩ := hcalm.1 m hfind
    obtain ⟨hnd, hnc⟩ := hcalm.2 m hfind
    obtain ⟨hout, hpend⟩ := found_of_calm h hm hna hne hnd hnc
    refine ⟨hinv, ⟨h.tickets.queued_lt, h.tickets.running_lt, h.tickets.queued_inj,
      h.tickets.queued_running⟩, ?_, fun t k hk => ?_, h.log⟩
    · intro m' a b hc
      rcases List.mem_cons.mp hc with heq | hc
      · obtain ⟨rfl, rfl, rfl⟩ := Call.delReal.inj heq
        rw [hout, ← hblob, hpend]
        refine ⟨rfl, fun k hk => ?_⟩
        have hk : (s.maps m').queued = some k := hk
        constructor
        · exact h.tickets.queued_lt m' k hk
        · intro m₁ hne₁ hk₁
          exact hne₁ (congrArg some (h.tickets.queued_inj m₁ m' k hk₁ hk))
        · intro m₁ r hr
          exact h.tickets.queued_running m' m₁ k r hk hr
      · obtain ⟨hsome, hdoom⟩ := h.deleting m' a b hc
        exact ⟨hsome, fun k hk => ⟨(hdoom k hk).lt, (hdoom k hk).queued, (hdoom k hk).running⟩⟩
    · have hdead := h.deleted t k hk
      exact ⟨hdead.lt, hdead.queued, hdead.running⟩
  · refine ⟨hinv, ⟨h.tickets.queued_lt, h.tickets.running_lt, h.tickets.queued_inj,
      h.tickets.queued_running⟩, ?_, fun t' k hk => ?_, ⟨rfl, h.log⟩⟩
    · intro m a b hc
      obtain ⟨hsome, hdoom⟩ := h.deleting m a b hc
      exact ⟨hsome, fun k hk => ⟨(hdoom k hk).lt, (hdoom k hk).queued, (hdoom k hk).running⟩⟩
    · rcases List.mem_cons.mp hk with heq | hk
      · cases heq
      · have hdead := h.deleted t' k hk
        exact ⟨hdead.lt, hdead.queued, hdead.running⟩

theorem delReal_answer (h : AnswerInv s) {a : Option Nat} {b : Bool}
    (hcs : .delReal m a b ∈ s.calls) (ok : Bool) : AnswerInv (nextStep s (.delReal m a b) ok) := by
  have hinv := delReal_inv h.inv hcs ok
  obtain ⟨hsome, hdoom⟩ := h.deleting m a b hcs
  have hself : (nextStep s (.delReal m a b) ok).maps m = { s.maps m with queued := none } := by
    simp [nextStep]
  have hother : ∀ m', m' ≠ m → (nextStep s (.delReal m a b) ok).maps m' = s.maps m' := by
    intro m' hne
    simp [nextStep, updMap_of_ne _ hne]
  have hq : ∀ m' k, ((nextStep s (.delReal m a b) ok).maps m').queued = some k →
      m' ≠ m ∧ (s.maps m').queued = some k := by
    intro m' k hk
    by_cases hne : m' = m
    · rw [hne, hself] at hk
      cases hk
    · rw [hother m' hne] at hk
      exact ⟨hne, hk⟩
  have hr : ∀ m', ((nextStep s (.delReal m a b) ok).maps m').running = (s.maps m').running := by
    intro m'
    by_cases hne : m' = m
    · rw [hne, hself]
    · rw [hother m' hne]
  -- the step without its report keeps the invariant, and the report is about a dead arming
  have hbase : AnswerInv { nextStep s (.delReal m a b) ok with log := s.log } := by
    refine h.frame (hinv.frame rfl rfl rfl rfl (fun _ => rfl) rfl) (Nat.le_refl _)
      (fun m' k hk => (hq m' k hk).2) (fun m' r hrun => ?_)
      (fun _ _ _ hc => List.mem_of_mem_erase hc) rfl
    rw [hr m'] at hrun
    exact ⟨r, hrun, rfl⟩
  refine ⟨hinv, ⟨hbase.tickets.queued_lt, hbase.tickets.running_lt, hbase.tickets.queued_inj,
    hbase.tickets.queued_running⟩, fun m' a' b' hc => ?_, fun t k hk => ?_, ⟨hsome, h.log⟩⟩
  · obtain ⟨hsome', hdoom'⟩ := hbase.deleting m' a' b' hc
    exact ⟨hsome', fun k hk => ⟨(hdoom' k hk).lt, (hdoom' k hk).queued, (hdoom' k hk).running⟩⟩
  · rcases List.mem_cons.mp hk with heq | hk
    · obtain ⟨_, rfl, _⟩ := Obs.deleted.inj heq
      have hk' := hdoom k rfl
      refine ⟨hk'.lt, fun m' _ hm' => ?_, fun m' r hrun => ?_⟩
      · obtain ⟨hne, hold⟩ := hq m' k hm'
        exact hk'.queued m' (fun hsame => hne (Option.some.inj hsame)) hold
      · rw [hr m'] at hrun
        exact hk'.running m' r hrun
    · have hdead := hbase.deleted t k hk
      exact ⟨hdead.lt, hdead.queued, hdead.running⟩

theorem expire_answer (h : AnswerInv s) (hcalm : ¬ s.Deleting m) : AnswerInv (expire s m) := by
  have hinv := expire_inv h.inv hcalm
  have hgo : ∀ {f : TimerMap → TimerMap} {a : Nat}, (s.maps m).queued = some a →
      (∀ k, (f k).queued = none) → (∀ k, (f k).running = some (.entered a)) →
      Inv (s.updMap m f) → AnswerInv (s.updMap m f) := by
    intro f a hqa hfq hfr hinv
    have hq : ∀ m' k, ((s.updMap m f).maps m').queued = some k →
        m' ≠ m ∧ (s.maps m').queued = some k := by
      intro m' k hk
      by_cases hne : m' = m
      · rw [hne, updMap_self, hfq] at hk
        cases hk
      · rw [updMap_of_ne _ hne] at hk
        exact ⟨hne, hk⟩
    have hr : ∀ m' r, ((s.updMap m f).maps m').running = some r →
        r.arming = a ∨ (s.maps m').running = some r := by
      intro m' r hrun
      by_cases hne : m' = m
      · rw [hne, updMap_self, hfr] at hrun
        rw [← Option.some.inj hrun]
        exact .inl rfl
      · rw [updMap_of_ne _ hne] at hrun
        exact .inr hrun
    -- an arming that is doomed is not the one that expires
    have hdoomed : ∀ (m₁ : Option MapPtr) k, m₁ ≠ some m → Doomed s m₁ k →
        Doomed (s.updMap m f) m₁ k := by
      intro m₁ k hm₁ hd
      refine ⟨hd.lt, fun m' hne hm' => hd.queued m' hne (hq m' k hm').2, fun m' r hrun => ?_⟩
      rcases hr m' r hrun with harming | hold
      · rw [harming]
        rintro rfl
        exact hd.queued m (fun heq => hm₁ heq.symm) hqa
      · exact hd.running m' r hold
    refine ⟨hinv, ?_, fun m₁ a₁ b₁ hc => ?_, fun t k hk => ?_, h.log⟩
    · constructor
      · intro m' k hk
        exact h.tickets.queued_lt m' k (hq m' k hk).2
      · intro m' r hrun
        rcases hr m' r hrun with harming | hold
        · rw [harming]
          exact h.tickets.queued_lt m a hqa
        · exact h.tickets.running_lt m' r hold
      · intro m₁ m₂ k h₁ h₂
        exact h.tickets.queued_inj m₁ m₂ k (hq m₁ k h₁).2 (hq m₂ k h₂).2
      · intro m₁ m₂ k r h₁ hrun
        obtain ⟨hne, hold₁⟩ := hq m₁ k h₁
        rcases hr m₂ r hrun with harming | hold
        · rw [harming]
          rintro rfl
          exact hne (h.tickets.queued_inj m₁ m _ hold₁ hqa)
        · exact h.tickets.queued_running m₁ m₂ k r hold₁ hold
    · obtain ⟨hsome, hdoom⟩ := h.deleting m₁ a₁ b₁ hc
      refine ⟨hsome, fun k hk => hdoomed _ k (fun heq => ?_) (hdoom k hk)⟩
      have hm₁ : m₁ = m := Option.some.inj heq
      exact hcalm ⟨_, hc, by simp [Call.deletes, hm₁]⟩
    · exact hdoomed none k (by rintro ⟨⟩) (h.deleted t k hk)
  unfold expire
  split
  · rename_i a hqa hra
    simp only [expire, hqa, hra] at hinv
    exact hgo hqa (fun _ => rfl) (fun _ => rfl) hinv
  · exact h

theorem trampoline_answer (h : AnswerInv s) (hcalm : Calm s (.trampoline m)) :
    AnswerInv (trampoline s m) := by
  have hinv := trampoline_inv h.inv hcalm
  -- the trampoline goes on for the arming it was called for
  have hgo : ∀ (s₁ : State) {f : TimerMap → TimerMap} {r₀ : Tramp}, s₁.maps = s.maps →
      s₁.calls = s.calls → s₁.log = s.log → s₁.armings = s.armings →
      (s.maps m).running = some r₀ → (∀ k, (f k).queued = k.queued) →
      (∀ k r, (f k).running = some r → r.arming = r₀.arming) → Inv (s₁.updMap m f) →
      AnswerInv (s₁.updMap m f) := by
    intro s₁ f r₀ hmaps hcalls hlog harm hr₀ hfq hfr hinv₁
    refine h.frame hinv₁ (Nat.le_of_eq harm.symm) ?_ ?_ ?_ hlog
    · intro m' k hk
      by_cases hne : m' = m
      · rw [hne, updMap_self, hfq, hmaps] at hk
        rwa [hne]
      · rwa [updMap_of_ne _ hne, hmaps] at hk
    · intro m' r hrun
      by_cases hne : m' = m
      · rw [hne, updMap_self, hmaps] at hrun
        exact ⟨r₀, by rw [hne]; exact hr₀, (hfr _ r hrun).symm⟩
      · rw [updMap_of_ne _ hne, hmaps] at hrun
        exact ⟨r, hrun, rfl⟩
    · intro m' a b hc
      rw [State.updMap, hcalls] at hc
      exact hc
  unfold trampoline
  split
  · rename_i a hr
    simp only [trampoline, hr] at hinv
    exact hgo (s.setPending m false) rfl rfl rfl rfl hr (fun _ => rfl)
      (fun k r hk => by rw [← Option.some.inj hk]; rfl) hinv
  · rename_i a fn data hr
    simp only [trampoline, hr] at hinv
    have hrun : Inv (s.updMap m fun k => { k with running := some (.called a) }) := by
      split at hinv
      · exact hinv.frame rfl rfl rfl rfl (fun _ => rfl) rfl
      · exact hinv
    have hbase := hgo s rfl rfl rfl rfl hr (fun _ => rfl)
      (f := fun k => { k with running := some (.called a) })
      (fun k r hk => by rw [← Option.some.inj hk]; rfl) hrun
    split
    · rename_i hfn
      rw [if_pos hfn] at hinv
      refine ⟨hinv, ⟨hbase.tickets.queued_lt, hbase.tickets.running_lt, hbase.tickets.queued_inj,
        hbase.tickets.queued_running⟩, fun m' a' b' hc => ?_, fun t k hk => ?_, ⟨?_, h.log⟩⟩
      · obtain ⟨hsome', hdoom'⟩ := hbase.deleting m' a' b' hc
        exact ⟨hsome', fun k hk => ⟨(hdoom' k hk).lt, (hdoom' k hk).queued,
          (hdoom' k hk).running⟩⟩
      · rcases List.mem_cons.mp hk with heq | hk
        · cases heq
        · have hdead := hbase.deleted t k hk
          exact ⟨hdead.lt, hdead.queued, hdead.running⟩
      · intro t hdel
        exact (h.deleted t a hdel).running m _ hr rfl
    · exact hbase
  · rename_i a hr
    simp only [trampoline, hr] at hinv
    exact hgo s rfl rfl rfl rfl hr (fun _ => rfl) (fun k r hk => by cases hk) hinv
  · exact h

theorem AnswerInv.quiet (h : AnswerInv s) (hinv : Inv s') (hmaps : s'.maps = s.maps)
    (harm : s'.armings = s.armings) (hlog : s'.log = s.log)
    (hcalls : ∀ m a b, .delReal m a b ∈ s'.calls → .delReal m a b ∈ s.calls) : AnswerInv s' :=
  h.frame hinv (Nat.le_of_eq harm.symm) (fun m k hk => by rwa [hmaps] at hk)
    (fun m r hr => ⟨r, by rwa [hmaps] at hr, rfl⟩) hcalls hlog

theorem initTimerKey_answer (h : AnswerInv s) : AnswerInv (initTimerKey s t) := by
  have hinv : Inv (initTimerKey s t) := initTimerKey_inv h.inv
  refine h.quiet hinv ?_ ?_ ?_ (fun m a b hc => ?_)
  all_goals unfold initTimerKey at *
  · split <;> rfl
  · split <;> rfl
  · split <;> rfl
  · split at hc
    · exact (List.mem_cons.mp hc).resolve_left (by rintro ⟨⟩)
    · exact (List.mem_cons.mp hc).resolve_left (by rintro ⟨⟩)

theorem addTimer_answer (h : AnswerInv s) (hcalm : Calm s (.addTimer t)) :
    AnswerInv (addTimer s t) := by
  have hinv := addTimer_inv h.inv hcalm
  unfold addTimer at hinv ⊢
  split at hinv
  · exact h.quiet hinv rfl rfl rfl (fun _ _ _ hc =>
      (List.mem_cons.mp hc).resolve_left (by rintro ⟨⟩))
  · exact h

theorem initDup_answer (h : AnswerInv s) (ok : Bool) (hinv : Inv (nextStep s (.initDup m) ok)) :
    AnswerInv (nextStep s (.initDup m) ok) := by
  simp only [nextStep] at hinv ⊢
  revert hinv
  split
  · exact fun _ => h
  · intro hinv
    refine h.frame hinv (Nat.le_refl _) (fun m' k hk => ?_) (fun m' r hr => ⟨r, ?_, rfl⟩) ?_ rfl
    · by_cases hne : m' = m
      · rw [hne, advance_maps, updMap_self] at hk
        cases hk
      · rwa [advance_maps, updMap_of_ne _ hne] at hk
    · by_cases hne : m' = m
      · rw [hne, advance_maps, updMap_self] at hr
        rwa [hne]
      · rwa [advance_maps, updMap_of_ne _ hne] at hr
    · intro m' a b hc
      exact List.mem_of_mem_erase ((List.mem_cons.mp hc).resolve_left (by rintro ⟨⟩))

theorem initFresh_answer (h : AnswerInv s) (hinv : Inv (nextStep s (.initFresh t) true)) :
    AnswerInv (nextStep s (.initFresh t) true) := by
  have hself : (nextStep s (.initFresh t) true).maps s.nextMap = { blob := t } := by
    simp [nextStep, State.setPending]
  have hother : ∀ m, m ≠ s.nextMap → (nextStep s (.initFresh t) true).maps m = s.maps m := by
    intro m hm
    simp [nextStep, State.setPending, hm]
  refine h.frame hinv (Nat.le_refl _) (fun m' k hk => ?_) (fun m' r hr => ⟨r, ?_, rfl⟩)
    (fun _ _ _ hc => List.mem_of_mem_erase hc) rfl
  · by_cases hne : m' = s.nextMap
    · rw [hne, hself] at hk
      cases hk
    · rwa [hother m' hne] at hk
  · by_cases hne : m' = s.nextMap
    · rw [hne, hself] at hr
      cases hr
    · rwa [hother m' hne] at hr

theorem addTest_answer (h : AnswerInv s) {e : Nat} (ok : Bool)
    (hinv : Inv (nextStep s (.addTest m e) ok)) : AnswerInv (nextStep s (.addTest m e) ok) := by
  simp only [nextStep] at hinv ⊢
  revert hinv
  split
  all_goals
    intro hinv
    refine h.quiet hinv rfl rfl rfl (fun _ _ _ hc => ?_)
    exact List.mem_of_mem_erase ((List.mem_cons.mp hc).resolve_left (by rintro ⟨⟩))

theorem addNew_answer (h : AnswerInv s) {e : Nat} (ok : Bool)
    (hinv : Inv (nextStep s (.addNew m e) ok)) : AnswerInv (nextStep s (.addNew m e) ok) := by
  simp only [nextStep] at hinv ⊢
  revert hinv
  split
  · intro hinv
    refine h.frame hinv (Nat.le_refl _) (fun m' k hk => ?_) (fun m' r hr => ⟨r, ?_, rfl⟩)
      (fun _ _ _ hc => List.mem_of_mem_erase hc) rfl
    · by_cases hne : m' = m
      · rw [hne, leave_maps, updMap_self] at hk
        rwa [hne]
      · rwa [leave_maps, updMap_of_ne _ hne] at hk
    · by_cases hne : m' = m
      · rw [hne, leave_maps, updMap_self] at hr
        rwa [hne]
      · rwa [leave_maps, updMap_of_ne _ hne] at hr
  · exact arm_answer h

theorem step_answer (h : AnswerInv s) (e : Event) (hcalm : CalmDelete s e)
    (hok : ∀ t, e ≠ .next (.initFresh t) false) : AnswerInv (step s e) := by
  have hall := hcalm.calm hok
  have hinv := step_inv h.inv e hall
  cases e with
  | initTimerKey t => exact initTimerKey_answer h
  | addTimer t => exact addTimer_answer h hcalm
  | delTimer t => exact delTimer_answer h hcalm
  | next c ok =>
      simp only [step] at hinv ⊢
      by_cases hc : c ∈ s.calls
      · rw [if_pos hc] at hinv ⊢
        cases c with
        | initDup m => exact initDup_answer h ok hinv
        | initClear m =>
            exact h.quiet hinv rfl rfl rfl (fun _ _ _ hc => List.mem_of_mem_erase hc)
        | initFresh t =>
            obtain ⟨rfl, _⟩ := hall
            exact initFresh_answer h hinv
        | addTest m e => exact addTest_answer h ok hinv
        | addMod m e => exact arm_answer h hinv
        | addNew m e => exact addNew_answer h ok hinv
        | delReal m a b => exact delReal_answer h hc ok
      · rwa [if_neg hc]
  | expire m => exact expire_answer h hcalm
  | trampoline m => exact trampoline_answer h hcalm
  | write t e f d => exact h.quiet hinv rfl rfl rfl (fun _ _ _ hc => hc)

end Steps

/-! ## Runs -/

theorem LogOk.not_called {t : Addr} {k : Nat} {l₂ : List Obs} :
    ∀ l₁ : List Obs, LogOk (l₁ ++ .deleted t (some k) true :: l₂) →
      ∀ t' fn d, .called t' k fn d ∉ l₁ := by
  intro l₁
  induction l₁ with
  | nil => intro _ t' fn d hmem; cases hmem
  | cons o l₁ ih =>
      intro hok t' fn d hmem
      rcases List.mem_cons.mp hmem with rfl | hold
      · exact hok.1 t (by simp)
      · cases o with
        | called t₁ a fn₁ d₁ => exact ih hok.2 t' fn d hold
        | deleted t₁ a b => exact ih hok.2 t' fn d hold

theorem LogOk.answer {t : Addr} {a : Option Nat} {b : Bool} :
    ∀ {l : List Obs}, LogOk l → .deleted t a b ∈ l → a.isSome = b := by
  intro l
  induction l with
  | nil => intro _ hmem; cases hmem
  | cons o l ih =>
      intro hok hmem
      rcases List.mem_cons.mp hmem with rfl | hold
      · exact hok.1
      · cases o with
        | called t₁ a₁ fn₁ d₁ => exact ih hok.2 hold
        | deleted t₁ a₁ b₁ => exact ih hok.2 hold

theorem AnswerInv.truthful {s : State} (h : AnswerInv s) : Truthful s where
  one := by
    intro l₁ l₂ t a hlog
    have hok := h.log
    rw [hlog] at hok
    obtain ⟨k, rfl⟩ := Option.isSome_iff_exists.mp
      (hok.answer (List.mem_append_right _ List.mem_cons_self))
    exact ⟨k, rfl, LogOk.not_called l₁ hok⟩
  zero := by
    intro t a hmem
    exact .inl (Option.isNone_iff_eq_none.mp (by simpa using h.log.answer hmem))

theorem init_answer : AnswerInv init where
  inv := init_inv
  tickets :=
    ⟨(by intros; contradiction), (by intros; contradiction), (by intros; contradiction),
      (by intros; contradiction)⟩
  deleting := (by intros; contradiction)
  deleted := (by intros; contradiction)
  log := trivial

/-! ## Timers without an entry -/

/-- The state, without the list of the timers that have been initialised. The answers do not
depend on the list. -/
def State.forget (s : State) : State := { s with inited := [] }

theorem forget_ite {P : Prop} [Decidable P] (s s' : State) :
    (if P then s else s').forget = if P then s.forget else s'.forget := apply_ite _ _ _ _

theorem forget_maps (s : State) : s.forget.maps = s.maps := rfl

theorem forget_mapFind (s : State) (t : Addr) : s.forget.mapFind t = s.mapFind t := rfl

theorem forget_nextStep (s : State) (c : Call) (ok : Bool) :
    (nextStep s.forget c ok).forget = (nextStep s c ok).forget := by
  cases c with
  | initDup m =>
      simp only [nextStep, forget_ite]
      rfl
  | initFresh t => cases ok <;> rfl
  | addTest m e =>
      simp only [nextStep, forget_ite]
      rfl
  | addNew m e =>
      simp only [nextStep, forget_ite]
      rfl
  | _ => rfl

theorem forget_step (s : State) (e : Event) : (step s.forget e).forget = (step s e).forget := by
  cases e with
  | initTimerKey t =>
      simp only [step, initTimerKey, forget_mapFind]
      cases s.mapFind t <;> rfl
  | addTimer t =>
      simp only [step, addTimer, forget_mapFind]
      cases s.mapFind t <;> rfl
  | delTimer t =>
      simp only [step, delTimer, forget_mapFind]
      cases s.mapFind t <;> rfl
  | next c ok =>
      simp only [step]
      by_cases hc : c ∈ s.calls
      · rw [if_pos (show c ∈ s.forget.calls from hc), if_pos hc, forget_nextStep]
      · rw [if_neg (show c ∉ s.forget.calls from hc), if_neg hc]
        rfl
  | expire m =>
      simp only [step, expire, forget_maps]
      split <;> rfl
  | trampoline m =>
      simp only [step, trampoline, forget_maps]
      split
      · rfl
      · simp only [forget_ite]
        rfl
      · rfl
      · rfl
  | write t e f d => rfl

theorem AnswerInv.forget {s : State} (h : AnswerInv s) : AnswerInv s.forget := by
  refine h.quiet ⟨?_, fun m hm => ?_⟩ rfl rfl rfl (fun _ _ _ hmem => hmem)
  · exact h.inv.map.frame rfl rfl (fun _ => rfl) (by intros; contradiction)
      (fun _ hmem => .inl hmem)
      (fun _ _ => rfl)
  · exact (h.inv.agrees m hm).frame rfl rfl Iff.rfl Iff.rfl Iff.rfl

theorem initFresh_failed {s : State} {t : Addr} (h : AnswerInv s.forget)
    (hc : .initFresh t ∈ s.calls) :
    AnswerInv (nextStep s (.initFresh t) false).forget := by
  have hcalls : ∀ p : Call → Bool, p (.initFresh t) = false →
      ((∃ c ∈ s.calls.erase (.initFresh t), p c = true) ↔ ∃ c ∈ s.calls, p c = true) := by
    intro p hp
    rw [exists_erase hc, hp]
    simp
  refine h.quiet ⟨?_, fun m hm => ?_⟩ rfl rfl rfl (fun _ _ _ hmem => List.mem_of_mem_erase hmem)
  · exact h.inv.map.frame rfl rfl (fun _ => rfl) (by intros; contradiction)
      (fun c hmem => .inl (List.mem_of_mem_erase hmem)) (fun _ _ => rfl)
  · exact (h.inv.agrees m hm).frame rfl rfl (hcalls _ rfl) (hcalls _ rfl) (hcalls _ rfl)

theorem step_forget_answer {s : State} (h : AnswerInv s.forget) (e : Event)
    (hcalm : CalmDelete s.forget e) : AnswerInv (step s e).forget := by
  by_cases hfails : ∃ t, e = .next (.initFresh t) false
  · obtain ⟨t, rfl⟩ := hfails
    simp only [step]
    split_ifs with hc
    · exact initFresh_failed h hc
    · exact h
  · rw [← forget_step]
    exact (step_answer h e hcalm fun t heq => hfails ⟨t, heq⟩).forget

/-- **The answers of `del_timer` are true** in the runs whose steps leave the two halves of each
change alone. -/
theorem del_timer_truthful (es : List Event) (hcalm : Along step CalmDelete init es) :
    Truthful (run step init es) := by
  have hsame : ∀ s e, CalmDelete s e → CalmDelete s.forget e := by
    intro s e h
    cases e with
    | next c ok => cases c <;> exact h
    | _ => exact h
  have hinv : AnswerInv (run step init es).forget :=
    run_invariant (I := fun s => AnswerInv s.forget) (C := CalmDelete)
      (fun s e h hc => step_forget_answer h e (hsame s e hc)) init_answer.forget hcalm
  exact ⟨hinv.truthful.one, hinv.truthful.zero⟩

/-- A timer is deleted before it expires, added again, and its callback runs. -/
theorem del_timer_truthful_before_expiry :
    Truthful (run step init [.initTimerKey 7, .next (.initFresh 7) true, .write 7 100 1 2,
      .addTimer 7, .next (.addTest 1 100) true, .next (.addNew 1 100) true, .delTimer 7,
      .next (.delReal 1 (some 0) true) true, .addTimer 7, .next (.addTest 1 100) true,
      .next (.addNew 1 100) true, .expire 1, .trampoline 1, .trampoline 1]) :=
  del_timer_truthful _ (by decide)

/-- **`del_timer` answers 1 for a timer that is expiring**: the kernel has dequeued the timer,
the mark is still there, and the callback of the arming that the answer is about runs after the
call has returned. -/
theorem answered_while_expiring : ¬ ∀ es, Truthful (run step init es) := by
  intro h
  have hlog : (run step init (armedOnce ++ [.delTimer 7, .next (.delReal 1 (some 0) true) true,
      .trampoline 1, .trampoline 1])).log =
        [.called 7 0 1 2] ++ .deleted 7 (some 0) true :: [] := by
    decide
  obtain ⟨k, hk, hnever⟩ := (h _).one _ _ _ _ hlog
  rw [← Option.some.inj hk] at hnever
  exact hnever 7 1 2 (by simp)

end BroadcomWl.Shadow.Timer
