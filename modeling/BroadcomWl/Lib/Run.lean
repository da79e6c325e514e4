import Mathlib

/-!
# Runs of a transition system

A deterministic system processes a list of events, one `step` per event. Statements about its
runs come in two kinds:

- `Along step P s es`: every step of the run that starts in `s` and processes `es` satisfies
  `P`, which sees the state before the step and the event;
- a predicate of the state `run step s es` in which the run ends. Each beginning of a run is a
  run, so this covers all states that are passed through.

**Simulation.** The steps of the system are often not the steps in which an invariant is
natural: processing one event does many small things. `simulation_invariant` and
`simulation_along` take the small steps of an abstract system, with the concrete step as a
parameter of the relation, and lift an invariant of the small steps to runs. `S` relates a
state to the abstract states that show it.
-/

namespace BroadcomWl.Lib

open Relation

variable {σ ε τ : Type} (step : σ → ε → σ)

/-- The state in which a run ends. -/
def run (s : σ) (es : List ε) : σ := es.foldl step s

/-- Every step of a run satisfies `P`. -/
def Along (P : σ → ε → Prop) : σ → List ε → Prop
  | _, [] => True
  | s, e :: es => P s e ∧ Along P (step s e) es

@[simp] theorem run_nil (s : σ) : run step s [] = s := rfl

@[simp] theorem run_cons (s : σ) (e : ε) (es : List ε) :
    run step s (e :: es) = run step (step s e) es := rfl

theorem run_append (s : σ) (es es' : List ε) :
    run step s (es ++ es') = run step (run step s es) es' :=
  List.foldl_append

instance Along.decidable {P : σ → ε → Prop} [∀ s e, Decidable (P s e)] :
    ∀ (es : List ε) (s : σ), Decidable (Along step P s es)
  | [], _ => isTrue trivial
  | e :: es, s =>
    @instDecidableAnd (P s e) (Along step P (step s e) es) inferInstance
      (Along.decidable es (step s e))

variable {step}

theorem Along.and {P Q : σ → ε → Prop} {es : List ε} {s : σ} (hP : Along step P s es)
    (hQ : Along step Q s es) : Along step (fun s e => P s e ∧ Q s e) s es := by
  induction es generalizing s with
  | nil => trivial
  | cons e es ih => exact ⟨⟨hP.1, hQ.1⟩, ih hP.2 hQ.2⟩

theorem Along.middle {P : σ → ε → Prop} {pre post : List ε} {e : ε} {s : σ}
    (h : Along step P s (pre ++ e :: post)) : P (run step s pre) e := by
  induction pre generalizing s with
  | nil => exact h.1
  | cons x pre ih => exact ih h.2

/-- **The invariant rule.** What every allowed step keeps, every allowed run keeps. -/
theorem run_invariant {I : σ → Prop} {C : σ → ε → Prop}
    (hstep : ∀ s e, I s → C s e → I (step s e)) {es : List ε} :
    ∀ {s}, I s → Along step C s es → I (run step s es) := by
  induction es with
  | nil => intro s hs _; exact hs
  | cons e es ih =>
      intro s hs hC
      exact ih (hstep s e hs hC.1) hC.2

theorem run_kept {I : σ → Prop} (hstep : ∀ s e, I s → I (step s e)) (es : List ε) :
    ∀ {s}, I s → I (run step s es) := by
  induction es with
  | nil => intro s hs; exact hs
  | cons e es ih => intro s hs; exact ih (hstep s e hs)

/-- What every allowed step from a state of the invariant satisfies, every step of an allowed
run satisfies. -/
theorem along_of_invariant {I : σ → Prop} {C P : σ → ε → Prop}
    (hstep : ∀ s e, I s → C s e → I (step s e)) (hP : ∀ s e, I s → C s e → P s e)
    {es : List ε} : ∀ {s}, I s → Along step C s es → Along step P s es := by
  induction es with
  | nil => intro s _ _; trivial
  | cons e es ih =>
      intro s hs hC
      exact ⟨hP s e hs hC.1, ih (hstep s e hs hC.1) hC.2⟩

theorem reach_invariant {R : τ → τ → Prop} {I : τ → Prop}
    (hR : ∀ a b, I a → R a b → I b) {a b : τ} (h : ReflTransGen R a b) (ha : I a) :
    I b := by
  induction h with
  | refl => exact ha
  | tail _ hbc ih => exact hR _ _ ih hbc

section Simulation

variable {S : σ → τ → Prop} {R : σ → ε → τ → τ → Prop} {I : τ → Prop} {C : σ → ε → Prop}

/-- **Invariants through a simulation.** If each concrete step is a sequence of small steps,
and the small steps of allowed concrete steps keep the invariant, so does an allowed run. -/
theorem simulation_invariant
    (hsim : ∀ s e a, S s a → ∃ b, ReflTransGen (R s e) a b ∧ S (step s e) b)
    (hR : ∀ s e, C s e → ∀ a b, I a → R s e a b → I b)
    {s : σ} {es : List ε} (hs : ∃ a, S s a ∧ I a) (hC : Along step C s es) :
    ∃ a, S (run step s es) a ∧ I a := by
  refine run_invariant (I := fun s => ∃ a, S s a ∧ I a) ?_ hs hC
  intro s e hs hse
  obtain ⟨a, hsa, ha⟩ := hs
  obtain ⟨b, hab, hb⟩ := hsim s e a hsa
  exact ⟨b, hb, reach_invariant (hR s e hse) hab ha⟩

/-- The same for a property of each step: `G s e` is a further invariant of the small steps
that belong to one concrete step, such as a statement about what they add to a log. -/
theorem simulation_along {G : σ → ε → τ → Prop} {P : σ → ε → Prop}
    (hsim : ∀ s e a, S s a → ∃ b, ReflTransGen (R s e) a b ∧ S (step s e) b)
    (hR : ∀ s e, C s e → ∀ a b, I a → R s e a b → I b)
    (hG0 : ∀ s e a, S s a → I a → G s e a)
    (hG : ∀ s e, C s e → ∀ a b, I a → G s e a → R s e a b → G s e b)
    (hP : ∀ s e b, S (step s e) b → G s e b → P s e)
    {s : σ} {es : List ε} (hs : ∃ a, S s a ∧ I a) (hC : Along step C s es) :
    Along step P s es := by
  have hboth : ∀ s e, (∃ a, S s a ∧ I a) → C s e →
      ∃ b, S (step s e) b ∧ I b ∧ G s e b := by
    intro s e hs hse
    obtain ⟨a, hsa, ha⟩ := hs
    obtain ⟨b, hab, hb⟩ := hsim s e a hsa
    have h := reach_invariant (R := R s e) (I := fun a => I a ∧ G s e a)
      (fun a b hia hr => ⟨hR s e hse a b hia.1 hr, hG s e hse a b hia.1 hia.2 hr⟩)
      hab ⟨ha, hG0 s e a hsa ha⟩
    exact ⟨b, hb, h⟩
  refine along_of_invariant (I := fun s => ∃ a, S s a ∧ I a) (fun s e hs hse => ?_)
    (fun s e hs hse => ?_) hs hC
  · obtain ⟨b, hb, hib, -⟩ := hboth s e hs hse
    exact ⟨b, hb, hib⟩
  · obtain ⟨b, hb, -, hgb⟩ := hboth s e hs hse
    exact hP s e b hb hgb

end Simulation

/-! ## Loops that may fail -/

/-- A loop that may fail does not, and follows another one, if each of its steps does so. -/
theorem foldlM_simulation {α β γ δ : Type} {R : α → β → Prop} {f : α → γ → Option α} {g : β → δ → β}
    {e : δ → γ} {l : List δ}
    (hstep : ∀ a b, ∀ d ∈ l, R a b → ∃ a', f a (e d) = some a' ∧ R a' (g b d)) {a : α} {b : β}
    (h : R a b) : ∃ a', (l.map e).foldlM f a = some a' ∧ R a' (l.foldl g b) := by
  induction l generalizing a b with
  | nil => exact ⟨a, rfl, h⟩
  | cons d l ih =>
      obtain ⟨a', ha', hR⟩ := hstep a b d List.mem_cons_self h
      have htail : ∀ a b, ∀ d ∈ l, R a b → ∃ a', f a (e d) = some a' ∧ R a' (g b d) :=
        fun a b d hd => hstep a b d (List.mem_cons_of_mem _ hd)
      obtain ⟨a'', ha'', hR'⟩ := ih htail hR
      refine ⟨a'', ?_, hR'⟩
      rw [List.map_cons, List.foldlM_cons, ha']
      exact ha''

end BroadcomWl.Lib
