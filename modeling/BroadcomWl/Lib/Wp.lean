import Mathlib

/-!
# Weakest preconditions for stateful computations that may stop

A C function that works on global state and may abort is modelled as a computation of
`EStateM ε σ α`: it reads and writes a state `σ`, and it either returns a value or stops
with an `ε`, keeping the state reached so far.

`wp m Q E s` says what it means to run `m` from `s`: a normal return satisfies `Q`, an abort
satisfies `E`. The simp set below runs a `do` block symbolically, one statement at a time;
`wp_mono` cuts a proof at a call whose specification is known, and `wp_forM` is the rule for
a loop over a list. `Keeps` is the special case in which precondition and postcondition are the
same; its rules follow the structure of a computation.
-/

namespace BroadcomWl.Lib

variable {ε σ α β : Type}

/-- Running `m` from `s` ends in `Q` when it returns and in `E` when it stops. -/
def wp (m : EStateM ε σ α) (Q : α → σ → Prop) (E : ε → σ → Prop) (s : σ) : Prop :=
  match m s with
  | .ok a s' => Q a s'
  | .error e s' => E e s'

section Rules

variable {Q : α → σ → Prop} {E : ε → σ → Prop} {s : σ}

@[simp] theorem wp_pure (a : α) : wp (pure a) Q E s ↔ Q a s := Iff.rfl

@[simp] theorem wp_bind (m : EStateM ε σ β) (f : β → EStateM ε σ α) :
    wp (m >>= f) Q E s ↔ wp m (fun b s' => wp (f b) Q E s') E s := by
  show wp (EStateM.bind m f) Q E s ↔ _
  unfold wp EStateM.bind
  cases m s <;> rfl

@[simp] theorem wp_map (m : EStateM ε σ β) (f : β → α) :
    wp (f <$> m) Q E s ↔ wp m (fun b s' => Q (f b) s') E s := by
  show wp (EStateM.map f m) Q E s ↔ _
  unfold wp EStateM.map
  cases m s <;> rfl

@[simp] theorem wp_throw (e : ε) : wp (throw e : EStateM ε σ α) Q E s ↔ E e s := Iff.rfl

@[simp] theorem wp_get {Q : σ → σ → Prop} :
    wp (get : EStateM ε σ σ) Q E s ↔ Q s s := Iff.rfl

@[simp] theorem wp_set {Q : PUnit → σ → Prop} (s' : σ) :
    wp (set s' : EStateM ε σ PUnit) Q E s ↔ Q ⟨⟩ s' := Iff.rfl

@[simp] theorem wp_modify {Q : PUnit → σ → Prop} (f : σ → σ) :
    wp (modify f : EStateM ε σ PUnit) Q E s ↔ Q ⟨⟩ (f s) := Iff.rfl

@[simp] theorem wp_ite (c : Prop) [Decidable c] (m n : EStateM ε σ α) :
    wp (if c then m else n) Q E s ↔ (c → wp m Q E s) ∧ (¬c → wp n Q E s) := by
  by_cases h : c <;> simp [h]

theorem wp_mono {Q' : α → σ → Prop} {E' : ε → σ → Prop} {m : EStateM ε σ α}
    (h : wp m Q E s) (hQ : ∀ a s', Q a s' → Q' a s') (hE : ∀ e s', E e s' → E' e s') :
    wp m Q' E' s := by
  unfold wp at *
  cases hm : m s with
  | ok a s' => rw [hm] at h; exact hQ a s' h
  | error e s' => rw [hm] at h; exact hE e s' h

theorem wp_and {Q' : α → σ → Prop} {E' : ε → σ → Prop} {m : EStateM ε σ α}
    (h : wp m Q E s) (h' : wp m Q' E' s) :
    wp m (fun a s' => Q a s' ∧ Q' a s') (fun e s' => E e s' ∧ E' e s') s := by
  unfold wp at *
  cases hm : m s with
  | ok a s' => rw [hm] at h h'; exact ⟨h, h'⟩
  | error e s' => rw [hm] at h h'; exact ⟨h, h'⟩

theorem wp_false {m : EStateM ε σ α} : ¬wp m (fun _ _ => False) (fun _ _ => False) s := by
  unfold wp
  cases m s <;> exact id

end Rules

section Loop

variable {γ : Type} {E : ε → σ → Prop} {body : γ → EStateM ε σ PUnit}

theorem wp_forM_cons {Q : PUnit → σ → Prop} (x : γ) (l : List γ) (s : σ) :
    wp ((x :: l).forM body) Q E s ↔ wp (body x) (fun _ s' => wp (l.forM body) Q E s') E s := by
  show wp (body x >>= fun _ => l.forM body) Q E s ↔ _
  rw [wp_bind]

theorem wp_forM {I : σ → Prop} {l : List γ}
    (hbody : ∀ x ∈ l, ∀ s, I s → wp (body x) (fun _ => I) E s) :
    ∀ s, I s → wp (l.forM body) (fun _ => I) E s := by
  induction l with
  | nil => intro s hs; exact hs
  | cons x l ih =>
      intro s hs
      rw [wp_forM_cons]
      refine wp_mono (hbody x (by simp) s hs) (fun _ s' hs' => ?_) (fun _ _ he => he)
      exact ih (fun y hy => hbody y (by simp [hy])) s' hs'

end Loop

/-! ## Kept properties -/

/-- `m` keeps `I`, and where it stops it does so with `E`. -/
def Keeps (I : σ → Prop) (E : ε → σ → Prop) (m : EStateM ε σ α) : Prop :=
  ∀ s, I s → wp m (fun _ => I) E s

namespace Keeps

variable {I : σ → Prop} {E : ε → σ → Prop}

theorem pure (a : α) : Keeps I E (Pure.pure a) := fun _ h => h

theorem bind {m : EStateM ε σ β} {f : β → EStateM ε σ α} (hm : Keeps I E m)
    (hf : ∀ b, Keeps I E (f b)) : Keeps I E (m >>= f) := by
  intro s hs
  rw [wp_bind]
  exact wp_mono (hm s hs) (fun b s' h => hf b s' h) (fun _ _ h => h)

theorem ite {c : Prop} [Decidable c] {m n : EStateM ε σ α} (hm : Keeps I E m) (hn : Keeps I E n) :
    Keeps I E (if c then m else n) := by
  intro s hs
  rw [wp_ite]
  exact ⟨fun _ => hm s hs, fun _ => hn s hs⟩

/-- A conditional whose branches keep the invariant because of the condition. -/
theorem iteCases {c : Prop} [Decidable c] {m n : EStateM ε σ α} (hm : c → Keeps I E m)
    (hn : ¬c → Keeps I E n) : Keeps I E (if c then m else n) := by
  intro s hs
  rw [wp_ite]
  exact ⟨fun h => hm h s hs, fun h => hn h s hs⟩

theorem ifThen {c : Prop} [Decidable c] {m : EStateM ε σ Unit} {f : Unit → EStateM ε σ α}
    (hm : Keeps I E m) (hf : ∀ b, Keeps I E (f b)) :
    Keeps I E (if c then m >>= f else f ()) :=
  .ite (.bind hm hf) (hf ())

theorem ifElse {c : Prop} [Decidable c] {m n : EStateM ε σ β} {f : β → EStateM ε σ α}
    (hm : Keeps I E m) (hn : Keeps I E n) (hf : ∀ b, Keeps I E (f b)) :
    Keeps I E (if c then m >>= f else n >>= f) :=
  .ite (.bind hm hf) (.bind hn hf)

/-- A conditional statement that may return early, in front of the rest of a `do` block. -/
theorem ifReturn {c : Prop} [Decidable c] {m : EStateM ε σ β} {p : β → Prop} {d : DecidablePred p}
    {n f : EStateM ε σ α} (hm : Keeps I E m) (hn : Keeps I E n) (hf : Keeps I E f) :
    Keeps I E (if c then m >>= fun b => if p b then n else f else f) :=
  .ite (.bind hm fun _ => .ite hn hf) hf

theorem get : Keeps I E (MonadState.get : EStateM ε σ σ) := fun _ h => h

theorem modifyState {f : σ → σ} (h : ∀ s, I s → I (f s)) :
    Keeps I E (modify f : EStateM ε σ PUnit) := fun s hs => h s hs

theorem throw {e : ε} (h : ∀ s, I s → E e s) :
    Keeps I E (MonadExcept.throw e : EStateM ε σ α) := fun s hs => h s hs

end Keeps

/-- The state a computation leaves behind, however it ends. -/
def finalState (m : EStateM ε σ α) (s : σ) : σ :=
  match m s with
  | .ok _ s' => s'
  | .error _ s' => s'

theorem wp_finalState {P : σ → Prop} {m : EStateM ε σ α} {s : σ}
    (h : wp m (fun _ => P) (fun _ => P) s) : P (finalState m s) := by
  unfold wp at h
  unfold finalState
  cases hm : m s with
  | ok a s' => rw [hm] at h; exact h
  | error e s' => rw [hm] at h; exact h

theorem wp_total {E : ε → σ → Prop} {m : EStateM ε σ α} {s : σ}
    (h : wp m (fun _ _ => True) (fun _ _ => False) s) :
    wp m (fun _ s' => s' = finalState m s) E s := by
  unfold wp finalState at *
  cases hm : m s with
  | ok a s' => rfl
  | error e s' => rw [hm] at h; exact h.elim

end BroadcomWl.Lib
