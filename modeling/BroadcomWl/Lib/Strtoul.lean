import Mathlib

/-!
# Numbers in text

`strtoul` with base 10, on a machine whose `unsigned long` has 32 bits. A number is what it reads:
white space, perhaps a sign, and digits. A number that is too large is `ULONG_MAX`, and one with a
minus sign is negated in the unsigned type.

`strtoul_numeral` and `strtoul_eq_some` say together that the function reads the numerals and
nothing else. -/

namespace BroadcomWl.Lib

/-- `isspace`. -/
def isSpace (c : Char) : Bool := c.toNat == 32 || (9 ≤ c.toNat && c.toNat ≤ 13)

def ulongMax : Nat := 0xffffffff

/-- The value of a sequence of digits. -/
def digitsValue (ds : List Char) : Nat := ds.foldl (fun n c => 10 * n + (c.toNat - 48)) 0

/-- What `strtoul` makes of a number. -/
def ulong (minus : Bool) (n : Nat) : Nat :=
  if ulongMax < n then ulongMax else if minus then (ulongMax + 1 - n) % (ulongMax + 1) else n

/-- The sign, if there is one: whether it is a minus. -/
def readSign : List Char → Bool × List Char
  | [] => (false, [])
  | c :: a => if c = '-' then (true, a) else if c = '+' then (false, a) else (false, c :: a)

/-- `strtoul(a, &endp, 10)`: the value and the text at `endp`, or `none` where `endp` is `a`. -/
def strtoul (a : List Char) : Option (Nat × List Char) :=
  let s := readSign (a.dropWhile isSpace)
  let ds := s.2.takeWhile Char.isDigit
  if ds = [] then none else some (ulong s.1 (digitsValue ds), s.2.dropWhile Char.isDigit)

/-- The text of a number as `strtoul` reads it. -/
structure Numeral where
  blanks : List Char
  /-- a sign, and whether it is a minus -/
  sign : Option Bool
  digits : List Char
  blank : ∀ c ∈ blanks, isSpace c = true
  digit : ∀ c ∈ digits, c.isDigit = true
  nonempty : digits ≠ []

namespace Numeral

def signText : Option Bool → List Char
  | none => []
  | some true => ['-']
  | some false => ['+']

def text (n : Numeral) : List Char := n.blanks ++ (signText n.sign ++ n.digits)

/-- The number that the digits denote. -/
def value (n : Numeral) : Nat := digitsValue n.digits

/-- What `strtoul` returns for it. -/
def ulong (n : Numeral) : Nat := Lib.ulong (n.sign = some true) n.value

/-- Digits only. -/
def Plain (n : Numeral) : Prop := n.blanks = [] ∧ n.sign = none

/-- A numeral of digits only. -/
def ofDigits (digits : List Char) (digit : digits.all Char.isDigit = true)
    (nonempty : digits ≠ []) : Numeral :=
  ⟨[], none, digits, fun _ h => absurd h List.not_mem_nil, fun _ h =>
    List.all_eq_true.mp digit _ h, nonempty⟩

theorem ulong_plain {n : Numeral} (hp : n.Plain) (hv : n.value ≤ ulongMax) : n.ulong = n.value := by
  have hlt : ¬ulongMax < n.value := by omega
  simp [ulong, Lib.ulong, hp.2, hlt]

theorem ulong_lt (n : Numeral) : n.ulong < 2 ^ 32 := by
  rw [ulong, Lib.ulong]
  split
  · decide
  · rename_i h
    split
    · exact Nat.mod_lt _ (by decide)
    · simp only [ulongMax] at h
      omega

end Numeral

/-- The text goes on with something else than a digit. -/
def NoDigit (a : List Char) : Prop := ∀ c ∈ a.head?, c.isDigit = false

theorem isSpace_of_isDigit {c : Char} (h : c.isDigit = true) : isSpace c = false := by
  have hd : 48 ≤ c.toNat ∧ c.toNat ≤ 57 := by simpa [Char.isDigit, UInt32.le_iff_toNat_le] using h
  simp only [isSpace, Bool.or_eq_false_iff, Bool.and_eq_false_iff, beq_eq_false_iff_ne,
    decide_eq_false_iff_not]
  omega

theorem readSign_digits {ds : List Char} (rest : List Char) (hd : ∀ c ∈ ds, c.isDigit = true)
    (hne : ds ≠ []) :
    readSign (ds ++ rest) = (false, ds ++ rest) := by
  cases ds with
  | nil => exact absurd rfl hne
  | cons c ds =>
    have hc : c.isDigit = true := hd c List.mem_cons_self
    have hminus : c ≠ '-' := by
      rintro rfl
      exact absurd hc (by decide)
    have hplus : c ≠ '+' := by
      rintro rfl
      exact absurd hc (by decide)
    simp only [List.cons_append, readSign, hminus, hplus, if_false]

theorem takeWhile_append_stop {α : Type} {p : α → Bool} {l : List α} {rest : List α}
    (hl : ∀ c ∈ l, p c = true) (hrest : ∀ c ∈ rest.head?, p c = false) :
    (l ++ rest).takeWhile p = l ∧ (l ++ rest).dropWhile p = rest := by
  rw [List.takeWhile_append_of_pos hl, List.dropWhile_append_of_pos hl]
  cases rest with
  | nil => simp
  | cons c rest => simp [hrest c rfl]

theorem strtoul_numeral (n : Numeral) {rest : List Char} (hrest : NoDigit rest) :
    strtoul (n.text ++ rest) = some (n.ulong, rest) := by
  obtain ⟨d, ds, hds⟩ : ∃ d ds, n.digits = d :: ds := List.exists_cons_of_ne_nil n.nonempty
  have hd : d.isDigit = true := n.digit d (hds ▸ List.mem_cons_self)
  have hstart : ∀ c ∈ (Numeral.signText n.sign ++ (n.digits ++ rest)).head?, isSpace c = false := by
    intro c hc
    rw [hds] at hc
    cases hs : n.sign with
    | none =>
      simp only [hs, Numeral.signText, List.nil_append, List.cons_append, List.head?_cons,
        Option.mem_some_iff] at hc
      exact hc ▸ isSpace_of_isDigit hd
    | some minus =>
      cases minus
      · simp only [hs, Numeral.signText, List.cons_append, List.head?_cons, Option.mem_some_iff]
          at hc
        exact hc ▸ rfl
      · simp only [hs, Numeral.signText, List.cons_append, List.head?_cons, Option.mem_some_iff]
          at hc
        exact hc ▸ rfl
  have hsplit : n.text ++ rest = n.blanks ++ (Numeral.signText n.sign ++ (n.digits ++ rest)) := by
    simp only [Numeral.text, List.append_assoc]
  have hsign : readSign (Numeral.signText n.sign ++ (n.digits ++ rest)) =
      (decide (n.sign = some true), n.digits ++ rest) := by
    cases hs : n.sign with
    | none => exact readSign_digits rest n.digit n.nonempty
    | some b => cases b <;> rfl
  obtain ⟨htake, hdrop⟩ := takeWhile_append_stop n.digit hrest
  rw [strtoul, hsplit, (takeWhile_append_stop n.blank hstart).2, hsign, htake, hdrop,
    if_neg n.nonempty]
  rfl

theorem readSign_eq (a : List Char) :
    ∃ s, a = Numeral.signText s ++ (readSign a).2 ∧ (readSign a).1 = decide (s = some true) := by
  cases a with
  | nil => exact ⟨none, rfl, rfl⟩
  | cons c a =>
    simp only [readSign]
    split
    · rename_i h
      exact ⟨some true, by rw [h]; rfl, rfl⟩
    · split
      · rename_i h
        exact ⟨some false, by rw [h]; rfl, rfl⟩
      · exact ⟨none, rfl, rfl⟩

theorem mem_takeWhile {α : Type} {p : α → Bool} {l : List α} {c : α} (h : c ∈ l.takeWhile p) :
    p c = true := by
  induction l with
  | nil => simp at h
  | cons d l ih =>
    rw [List.takeWhile_cons] at h
    split at h
    · rcases List.mem_cons.mp h with rfl | h
      · assumption
      · exact ih h
    · cases h

theorem strtoul_eq_some {a rest : List Char} {v : Nat} (h : strtoul a = some (v, rest)) :
    ∃ n : Numeral, a = n.text ++ rest ∧ v = n.ulong ∧ NoDigit rest := by
  simp only [strtoul] at h
  obtain ⟨s, hs, hminus⟩ := readSign_eq (a.dropWhile isSpace)
  split at h
  · cases h
  · rename_i hne
    obtain ⟨rfl, rfl⟩ := Prod.mk.inj (Option.some.inj h)
    refine ⟨⟨a.takeWhile isSpace, s, (readSign (a.dropWhile isSpace)).2.takeWhile Char.isDigit,
      fun c hc => mem_takeWhile hc, fun c hc => mem_takeWhile hc, hne⟩, ?_, ?_, ?_⟩
    · simp only [Numeral.text, List.append_assoc]
      rw [List.takeWhile_append_dropWhile, ← hs, List.takeWhile_append_dropWhile]
    · simp only [Numeral.ulong, Numeral.value, hminus]
    · intro c hc
      rw [Option.mem_def] at hc
      have := List.head?_dropWhile_not Char.isDigit (readSign (a.dropWhile isSpace)).2
      rw [hc] at this
      simpa using this

end BroadcomWl.Lib
