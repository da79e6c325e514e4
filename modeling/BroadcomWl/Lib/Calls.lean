import BroadcomWl.Lib.Run

/-!
# Objects that answer calls

An object changes with each call and answers it. Two objects that answer every list of calls alike
are the same to a caller. `answers_eq` is the rule of simulation for that: a relation between the
states, under which each allowed call has the same answer and keeps the relation. What is allowed
may depend on the state of the second object. -/

namespace BroadcomWl.Lib

variable {σ τ ε ω : Type} {call : σ → ε → ω × σ} {call' : τ → ε → ω × τ}

/-- The answers to a list of calls. -/
def answers (call : σ → ε → ω × σ) : σ → List ε → List ω
  | _, [] => []
  | s, e :: es => (call s e).1 :: answers call (call s e).2 es

/-- **Calls are answered alike.** -/
theorem answers_eq {R : σ → τ → Prop} {C : τ → ε → Prop}
    (hcall : ∀ s t e, R s t → C t e → (call s e).1 = (call' t e).1 ∧ R (call s e).2 (call' t e).2)
    {es : List ε} :
    ∀ {s t}, R s t → Along (fun t e => (call' t e).2) C t es →
    answers call s es = answers call' t es := by
  induction es with
  | nil => intro s t _ _; rfl
  | cons e es ih =>
      intro s t hR hC
      obtain ⟨hanswer, hkept⟩ := hcall s t e hR hC.1
      rw [answers, answers, hanswer, ih hkept hC.2]

theorem answers_eq_of_forall {R : σ → τ → Prop}
    (hcall : ∀ s t e, R s t → (call s e).1 = (call' t e).1 ∧ R (call s e).2 (call' t e).2)
    (es : List ε) :
    ∀ {s t}, R s t → answers call s es = answers call' t es := by
  induction es with
  | nil => intro s t _; rfl
  | cons e es ih =>
      intro s t hR
      obtain ⟨hanswer, hkept⟩ := hcall s t e hR
      rw [answers, answers, hanswer, ih hkept]

theorem related_run {R : σ → τ → Prop} {C : τ → ε → Prop}
    (hcall : ∀ s t e, R s t → C t e → (call s e).1 = (call' t e).1 ∧ R (call s e).2 (call' t e).2)
    {es : List ε} :
    ∀ {s t}, R s t → Along (fun t e => (call' t e).2) C t es →
      R (run (fun s e => (call s e).2) s es) (run (fun t e => (call' t e).2) t es) := by
  induction es with
  | nil => intro s t hR _; exact hR
  | cons e es ih => intro s t hR hC; exact ih (hcall s t e hR hC.1).2 hC.2

end BroadcomWl.Lib
