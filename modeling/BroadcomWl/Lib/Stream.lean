import Mathlib

/-!
# Stream ciphers

A generator takes a state to a key and the next state. `crypt` puts each letter of a text together
with the next key, and says in which state it ends.

**Laws.** A text may come in pieces (`crypt_append`). From one state, twice is once back and forth,
where a key can be undone (`crypt_crypt`). What a step of the generator keeps, the whole text keeps
(`crypt_keeps`). -/

namespace BroadcomWl.Lib.Stream

variable {σ α : Type} (next : σ → α × σ) (add : α → α → α)

/-- Put a text together with the key stream. -/
def crypt : List α → σ → List α × σ
  | [], s => ([], s)
  | a :: text, s =>
    let (k, s) := next s
    let (rest, s) := crypt text s
    (add a k :: rest, s)

variable {next add}

theorem crypt_cons (a : α) (text : List α) (s : σ) :
    crypt next add (a :: text) s =
      (add a (next s).1 :: (crypt next add text (next s).2).1,
        (crypt next add text (next s).2).2) := rfl

/-- **In pieces.** -/
theorem crypt_append (a b : List α) (s : σ) :
    crypt next add (a ++ b) s =
      ((crypt next add a s).1 ++ (crypt next add b (crypt next add a s).2).1,
        (crypt next add b (crypt next add a s).2).2) := by
  induction a generalizing s with
  | nil => rfl
  | cons x a ih => rw [List.cons_append, crypt_cons, ih, crypt_cons, List.cons_append]

/-- **Twice**: the text comes back, and the state is the same as after one time. -/
theorem crypt_crypt (hadd : ∀ a k, add (add a k) k = a) (text : List α) (s : σ) :
    crypt next add (crypt next add text s).1 s = (text, (crypt next add text s).2) := by
  induction text generalizing s with
  | nil => rfl
  | cons a text ih => rw [crypt_cons, crypt_cons, ih, hadd]

/-- **An invariant** of the generator. -/
theorem crypt_keeps {I : σ → Prop} (hnext : ∀ s, I s → I (next s).2) (text : List α) {s : σ}
    (hs : I s) :
    I (crypt next add text s).2 := by
  induction text generalizing s with
  | nil => exact hs
  | cons a text ih => exact ih (hnext s hs)

end BroadcomWl.Lib.Stream
