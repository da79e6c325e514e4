import BroadcomWl.Wlconf.ChanspecFields

/-!
# The text of a chanspec

The comment above `wf_chspec_ntoa` gives the text form of a chanspec as a grammar: `[<band> 'g']
<channel> ['/'<bandwidth> [<ctl-sideband>]['/'<1st80channel>'-'<2nd80channel>]]`, and the old form
`<channel><ctl-sideband>`. `Reading` is its syntax, `Written` the text, `denotation` the channel.

**The reader.** `wf_chspec_aton` reads numbers with `strtoul`, which also takes blanks and signs.
`aton_written` gives the result for every text of this wider form, `written_of_aton` says that the
function accepts no other text. -/

namespace BroadcomWl.Wlconf

open BroadcomWl.Lib (Numeral NoDigit field field_lt strtoul_numeral strtoul_eq_some ulongMax)

/-! ## The grammar -/

/-- What follows the channel: nothing, the old sideband, a bandwidth, a bandwidth with a sideband,
or 80+80 with its two segments. -/
inductive Tail where
  | none
  | side (upper : Bool)
  | width (n : Numeral)
  | widthSide (n : Numeral) (upper : Bool)
  | pair (n ch1 ch2 : Numeral)

/-- The parts of a text, and the number of spaces behind it. -/
structure Reading where
  band : Option Numeral
  channel : Numeral
  tail : Tail
  spaces : Nat

def sideChar (upper : Bool) : Char := if upper then 'u' else 'l'

/-- Letters may be of either case. -/
inductive BandText : Option Numeral → List Char → Prop
  | omitted : BandText none []
  | given (n : Numeral) {g : Char} (hg : g.toLower = 'g') : BandText (some n) (n.text ++ [g])

inductive TailText : Tail → List Char → Prop
  | none : TailText .none []
  | side (upper : Bool) {x : Char} (hx : x.toLower = sideChar upper) : TailText (.side upper) [x]
  | width (n : Numeral) : TailText (.width n) ('/' :: n.text)
  | widthSide (n : Numeral) (upper : Bool) {x : Char} (hx : x.toLower = sideChar upper) :
      TailText (.widthSide n upper) ('/' :: (n.text ++ [x]))
  | pair (n ch1 ch2 : Numeral) :
      TailText (.pair n ch1 ch2)
        ('/' :: (n.text ++ '+' :: '8' :: '0' :: '/' :: (ch1.text ++ '-' :: ch2.text)))

/-- The text is a reading's. Trailing white space is skipped. -/
def Reading.Written (r : Reading) (s : List Char) : Prop :=
  ∃ b t, BandText r.band b ∧ TailText r.tail t ∧
    s = b ++ (r.channel.text ++ (t ++ List.replicate r.spaces ' '))

def Tail.Plain : Tail → Prop
  | .none => True
  | .side _ => True
  | .width n => n.Plain
  | .widthSide n _ => n.Plain
  | .pair n ch1 ch2 => n.Plain ∧ ch1.Plain ∧ ch2.Plain

/-- Every number is written with digits only, as the grammar has it. -/
def Reading.Plain (r : Reading) : Prop := (∀ n ∈ r.band, n.Plain) ∧ r.channel.Plain ∧ r.tail.Plain

/-! ## The channel that a text denotes -/

inductive Band where
  | g2 | g3 | g4 | g5
deriving DecidableEq, Repr

inductive Bandwidth where
  | w5 | w10 | w20 | w40 | w80 | w160 | w8080
deriving DecidableEq, Repr

/-- A channel of the radio: the control channel and the center of the band, or of the two bands. -/
structure Channel where
  band : Band
  control : Nat
  bandwidth : Bandwidth
  center : Nat
  second : Option Nat
deriving DecidableEq, Repr

/-- The band, by default 2g if channel <= 14, otherwise 5g. -/
def bandOf (band : Option Nat) (channel : Nat) : Option Band :=
  match band with
  | none => some (if channel ≤ chMax2gChannel then .g2 else .g5)
  | some n =>
    if n = 2 then some .g2 else if n = 3 then some .g3 else if n = 4 then some .g4 else if n =
      5 then some .g5 else none

/-- A bandwidth up to 20MHz, for which the channel is its own center. -/
def narrow (n : Nat) : Option Bandwidth :=
  if n = 5 then some .w5 else if n = 10 then some .w10 else if n = 20 then some .w20 else none

/-- A bandwidth above 20MHz, with its center channels. -/
def wide (n : Nat) : Option (Bandwidth × List Nat) :=
  if n = 40 then some (.w40, wf5g40mChans)
  else if n = 80 then some (.w80, wf5g80mChans)
  else if n = 160 then some (.w160, wf5g160mChans)
  else none

/-- The 20MHz channels of a wide channel. -/
def subchannels (center mhz : Nat) : List Nat :=
  (List.range (mhz / 20)).map fun k => center - (mhz - 20) / 10 + 4 * k

/-- The center of the channel of which this is a primary channel. -/
def centerOf (centers : List Nat) (mhz control : Nat) : Option Nat :=
  centers.find? fun center => control ∈ subchannels center mhz

/-- A 40MHz channel by its control channel and its sideband. -/
def sideChannel (band : Band) (control : Nat) (upper : Bool) : Option Channel :=
  if upper then if 2 ≤ control then some ⟨band, control, .w40, control - 2, none⟩ else none
  else if control + 2 ≤ maxchannel then some ⟨band, control, .w40, control + 2, none⟩ else none

/-- The channel, if what follows it is this. -/
def tailDenotation (band : Band) (control : Nat) : Tail → Option Channel
  | .none => some ⟨band, control, .w20, control, none⟩
  | .side upper => if band = .g2 ∨ band = .g5 then sideChannel band control upper else none
  | .width n =>
    match narrow n.value with
    | some w => some ⟨band, control, w, control, none⟩
    | none => do
      let (w, centers) ← wide n.value
      if band ≠ .g5 then none
      let center ← centerOf centers n.value control
      return ⟨band, control, w, center, none⟩
  | .widthSide n upper => if n.value = 40 ∧ band = .g2 then sideChannel band control upper else none
  | .pair n ch1 ch2 =>
    if n.value = 80 ∧ band = .g5 ∧ ch1.value < ch2.value ∧ ch1.value ∈ wf5g80mChans ∧
      ch2.value ∈ wf5g80mChans ∧
        (control ∈ subchannels ch1.value 80 ∨ control ∈ subchannels ch2.value 80) then
      some ⟨band, control, .w8080, ch1.value, some ch2.value⟩
    else none

/-- **What a text denotes.** No channel number is above `MAXCHANNEL`. -/
def Reading.denotation (r : Reading) : Option Channel := do
  let band ← bandOf (r.band.map Numeral.value) r.channel.value
  if maxchannel < r.channel.value then none
  tailDenotation band r.channel.value r.tail

/-- A string is in the grammar and denotes this channel. -/
def Denotes (s : List Char) (d : Channel) : Prop :=
  ∃ r : Reading, r.Written s ∧ r.Plain ∧ r.denotation = some d

def Band.code : Band → Nat
  | .g2 => 0
  | .g3 => 1
  | .g4 => 2
  | .g5 => 3

def Bandwidth.code : Bandwidth → Nat
  | .w5 => 0
  | .w10 => 1
  | .w20 => 2
  | .w40 => 3
  | .w80 => 4
  | .w160 => 5
  | .w8080 => 6

/-- A chanspec has the control channel, the band, the bandwidth and the center or the
two segments. -/
def Carries (chspec : Nat) (d : Channel) : Prop :=
  wfChspecCtlchan chspec = d.control ∧ chspecBand chspec = d.band.code * 16384 ∧
    chspecBw chspec = d.bandwidth.code * 2048 ∧
    (d.second = none → chspecChannel chspec = d.center) ∧
    ∀ second, d.second = some second →
      wf5g80mChans[field chspec 0 4]? = some d.center ∧
        wf5g80mChans[field chspec 4 4]? = some second

/-- **The text form.** The function returns a chanspec exactly for the strings of the grammar, and
then the one of the channel that the string denotes. -/
def TextCorrect (s : List Char) : Prop :=
  (wfChspecAton s ≠ 0 ↔ ∃ d, Denotes s d) ∧ ∀ d, Denotes s d → wfChspecAton s ≠ 0 →
    Carries (wfChspecAton s) d

/-! ## Reading -/

theorem isDigit_toLower {c : Char} (h : c.isDigit = true) : c.toLower = c := by
  have hd : 48 ≤ c.toNat ∧ c.toNat ≤ 57 := by simpa [Char.isDigit, UInt32.le_iff_toNat_le] using h
  apply Char.toLower_eq_of_not_isUpper
  intro hu
  have hupper : 65 ≤ c.toNat ∧ c.toNat ≤ 90 := by
    simpa [Char.isUpper, UInt32.le_iff_toNat_le] using hu
  omega

theorem eq_of_toLower {c x : Char} (h : c.toLower = x) (hx : x.isLower = false) : c = x := by
  have halpha : c.isAlpha = false := by rw [← Char.isLower_toLower_eq_isAlpha, h, hx]
  rw [Char.toLower_eq_of_not_isUpper] at h
  · exact h
  · intro hu
    rw [Char.isAlpha, hu, Bool.true_or] at halpha
    cases halpha

theorem not_digit_of_lower {c x : Char} (h : c.toLower = x) (hx : x.isDigit = false) :
    c.isDigit = false := by
  apply eq_false_of_ne_true
  intro hd
  rw [isDigit_toLower hd] at h
  rw [h, hx] at hd
  cases hd

theorem sideChar_digit (upper : Bool) : (sideChar upper).isDigit = false := by
  cases upper <;> rfl

theorem noDigit_spaces (k : Nat) : NoDigit (List.replicate k ' ') := by
  intro c hc
  cases k with
  | zero => cases hc
  | succ k =>
    obtain rfl : ' ' = c := Option.some.inj hc
    rfl

theorem noDigit_cons {c : Char} {a : List Char} (h : c.isDigit = false) : NoDigit (c :: a) := by
  intro d hd
  obtain rfl : c = d := Option.some.inj hd
  exact h

theorem TailText.start {t : Tail} {a : List Char} (h : TailText t a) (k : Nat) :
    NoDigit (a ++ List.replicate k ' ') ∧ peek (a ++ List.replicate k ' ') ≠ some 'g' := by
  cases h with
  | none =>
    refine ⟨noDigit_spaces k, ?_⟩
    cases k with
    | zero => decide
    | succ k =>
      rw [List.nil_append, peek, List.replicate_succ, List.head?_cons]
      decide
  | side upper hx =>
    refine ⟨noDigit_cons (not_digit_of_lower hx (sideChar_digit upper)), ?_⟩
    rw [List.cons_append, peek, List.head?_cons, Option.map_some, hx]
    cases upper <;> decide
  | width n => exact ⟨noDigit_cons rfl, by rw [List.cons_append, peek, List.head?_cons]; decide⟩
  | widthSide n upper hx =>
    exact ⟨noDigit_cons rfl, by rw [List.cons_append, peek, List.head?_cons]; decide⟩
  | pair n ch1 ch2 =>
    exact ⟨noDigit_cons rfl, by rw [List.cons_append, peek, List.head?_cons]; decide⟩

/-- The band that `wf_chspec_aton` takes. -/
def readBandOf (band : Option Nat) (channel : Nat) : Option Nat :=
  match band with
  | none => some (if channel ≤ chMax2gChannel then wlChanspecBand2g else wlChanspecBand5g)
  | some n => bandChspec n

theorem readBand_written {b rest : List Char} {band : Option Numeral} (hb : BandText band b)
    (n : Numeral) (hrest : NoDigit rest) (hg : peek rest ≠ some 'g') :
    readBand (b ++ (n.text ++ rest)) =
      (readBandOf (band.map Numeral.ulong) n.ulong).map fun code => (code, n.ulong, rest) := by
  cases hb with
  | omitted =>
    rw [List.nil_append, readBand, readUint, strtoul_numeral n hrest]
    simp only [Option.bind_eq_bind, Option.bind_some, if_neg hg, readBandOf, Option.map_none,
      Option.map_some]
    rfl
  | given m hg' =>
    rename_i g
    have hdigit : NoDigit (g :: (n.text ++ rest)) := noDigit_cons (not_digit_of_lower hg' rfl)
    have hpeek : peek (g :: (n.text ++ rest)) = some 'g' := by
      rw [peek, List.head?_cons, Option.map_some, hg']
    rw [List.append_assoc, List.singleton_append, readBand, readUint, strtoul_numeral m hdigit]
    simp only [Option.bind_eq_bind, Option.bind_some, if_pos hpeek, List.tail_cons, readUint,
      strtoul_numeral n hrest, readBandOf, Option.map_some]
    cases bandChspec m.ulong <;> rfl

theorem readBand_some {a rest : List Char} {code channel : Nat}
    (h : readBand a = some (code, channel, rest)) :
    ∃ band b, ∃ n : Numeral, BandText band b ∧ a = b ++ (n.text ++ rest) := by
  rw [readBand, readUint, Option.bind_eq_bind, Option.bind_eq_some_iff] at h
  obtain ⟨⟨num, a'⟩, hnum, h⟩ := h
  obtain ⟨m, rfl, rfl, -⟩ := strtoul_eq_some hnum
  simp only at h
  split at h
  · rename_i hg
    obtain ⟨code', -, h⟩ := Option.bind_eq_some_iff.mp h
    obtain ⟨⟨ch, a''⟩, hch, h⟩ := Option.bind_eq_some_iff.mp h
    obtain ⟨n, ha'', rfl, -⟩ := strtoul_eq_some hch
    obtain ⟨-, h⟩ := Prod.mk.inj (Option.some.inj h)
    obtain ⟨-, rfl⟩ := Prod.mk.inj h
    cases a' with
    | nil => cases hg
    | cons g a' =>
      rw [peek, List.head?_cons, Option.map_some] at hg
      refine ⟨some m, m.text ++ [g], n, .given m (Option.some.inj hg), ?_⟩
      rw [List.append_assoc, List.singleton_append, ← ha'', List.tail_cons]
  · obtain ⟨-, h⟩ := Prod.mk.inj (Option.some.inj h)
    obtain ⟨-, rfl⟩ := Prod.mk.inj h
    exact ⟨none, [], m, .omitted, rfl⟩

/-- What `wf_chspec_aton` makes of the tail, with this many spaces behind it. -/
def widthOf (code spaces : Nat) : Tail → Option Width
  | .none => if spaces = 0 then some ⟨20, wlChanspecBw20, none, 0, 0⟩ else none
  | .side upper => some ⟨20, wlChanspecBw40, some upper, 0, 0⟩
  | .width n => (bwChspec n.ulong).map fun bw => ⟨n.ulong, bw, none, 0, 0⟩
  | .widthSide n upper =>
    if code = wlChanspecBand2g ∧
      n.ulong = 40 then some ⟨40, wlChanspecBw40, some upper, 0, 0⟩ else none
  | .pair n ch1 ch2 => (bwChspec n.ulong).map fun _ =>
    ⟨n.ulong, wlChanspecBw8080, none, ch1.ulong, ch2.ulong⟩

/-- The end of the string is reached behind white space. -/
def ended (x : Width × List Char) : Option Width :=
  if x.2.dropWhile (· = ' ') ≠ [] then none else some x.1

theorem ended_spaces (w : Width) (k : Nat) : ended (w, List.replicate k ' ') = some w := by
  rw [ended, if_neg]
  simp

theorem ended_cons (w : Width) {c : Char} (a : List Char) (hc : c ≠ ' ') :
    ended (w, c :: a) = none := by
  rw [ended, if_pos]
  simp [hc]

theorem sideLetter_sideChar (upper : Bool) : sideLetter (sideChar upper) = some upper := by
  cases upper <;> rfl

theorem sideLetter_some {c : Char} {upper : Bool} (h : sideLetter c = some upper) :
    c = sideChar upper := by
  rw [sideLetter] at h
  split at h
  · obtain rfl := Option.some.inj h
    assumption
  · split at h
    · obtain rfl := Option.some.inj h
      assumption
    · cases h

theorem ne_space_of_lower {c : Char} {upper : Bool} (h : c.toLower = sideChar upper) : c ≠ ' ' := by
  rintro rfl
  cases upper <;> exact absurd h (by decide)

theorem peek_cons (c : Char) (a : List Char) : peek (c :: a) = some c.toLower := rfl

theorem peek_some {a : List Char} {c : Char} (h : peek a = some c) :
    ∃ d b, a = d :: b ∧ d.toLower = c := by
  cases a with
  | nil => cases h
  | cons d b => exact ⟨d, b, rfl, Option.some.inj h⟩

theorem peek_spaces (k : Nat) : (peek (List.replicate k ' ')).bind sideLetter = none ∧
    peek (List.replicate k ' ') ≠ some '+' := by
  cases k with
  | zero => decide
  | succ k =>
    rw [List.replicate_succ, peek_cons]
    decide

theorem consume_append (cs a : List Char) : consume cs (cs ++ a) = some a := by
  induction cs with
  | nil => rfl
  | cons c cs ih => rw [List.cons_append, consume, if_pos rfl, ih]

theorem consume_some {cs a rest : List Char} (h : consume cs a = some rest) : a = cs ++ rest := by
  induction cs generalizing a with
  | nil => exact Option.some.inj h
  | cons c cs ih =>
    cases a with
    | nil => cases h
    | cons d a =>
      rw [consume] at h
      split at h
      · rename_i hd
        rw [ih h, hd, List.cons_append]
      · cases h

theorem readPair_written (bw : Nat) (ch1 ch2 : Numeral) (k : Nat) :
    readPair bw ('8' :: '0' :: '/' :: (ch1.text ++ '-' :: (ch2.text ++ List.replicate k ' '))) =
      some (⟨bw, wlChanspecBw8080, none, ch1.ulong, ch2.ulong⟩, List.replicate k ' ') := by
  have hword :=
    consume_append ['8', '0', '/'] (ch1.text ++ '-' :: (ch2.text ++ List.replicate k ' '))
  have hdash := consume_append ['-'] (ch2.text ++ List.replicate k ' ')
  simp only [List.cons_append, List.nil_append] at hword hdash
  simp only [readPair, readUint, hword, hdash, Option.bind_eq_bind, Option.bind_some,
    strtoul_numeral ch1 (noDigit_cons (show '-'.isDigit = false from rfl)),
    strtoul_numeral ch2 (noDigit_spaces k)]
  rfl

theorem readBandwidth_numeral (code : Nat) (n : Numeral) {rest : List Char} (hrest : NoDigit rest) :
    readBandwidth code (n.text ++ rest) = (bwChspec n.ulong).bind fun bw =>
      match if code = wlChanspecBand2g ∧ n.ulong = 40 then (peek rest).bind sideLetter
          else none with
      | some upper => some (⟨n.ulong, bw, some upper, 0, 0⟩, rest.tail)
      | none => if peek rest = some '+' then readPair n.ulong rest.tail
        else some (⟨n.ulong, bw, none, 0, 0⟩, rest) := by
  rw [readBandwidth, readUint, strtoul_numeral n hrest]
  rfl

/-- **Every text of the wider form is read as its parts say.** -/
theorem readWidth_written {t : Tail} {a : List Char} (h : TailText t a) (code k : Nat) :
    (readWidth code (a ++ List.replicate k ' ')).bind ended = widthOf code k t := by
  cases h with
  | none => cases k <;> rfl
  | side upper hx =>
    rename_i x
    have hread : readWidth code (x :: List.replicate k ' ') =
        some (⟨20, wlChanspecBw40, some upper, 0, 0⟩, List.replicate k ' ') := by
      simp only [readWidth, peek_cons, hx, sideLetter_sideChar, List.tail_cons]
    rw [List.singleton_append, hread]
    exact ended_spaces _ k
  | width n =>
    have hread : readWidth code ('/' :: (n.text ++ List.replicate k ' ')) =
        readBandwidth code (n.text ++ List.replicate k ' ') := rfl
    obtain ⟨hside, hplus⟩ := peek_spaces k
    rw [List.cons_append, hread, readBandwidth_numeral code n (noDigit_spaces k), widthOf,
      hside, ite_self]
    simp only [hplus, if_false]
    cases bwChspec n.ulong with
    | none => rfl
    | some bw => exact ended_spaces _ k
  | widthSide n upper hx =>
    rename_i x
    have hread : readWidth code ('/' :: (n.text ++ [x]) ++ List.replicate k ' ') =
        readBandwidth code (n.text ++ (x :: List.replicate k ' ')) := by
      rw [List.cons_append, List.append_assoc]
      rfl
    have hdigit : NoDigit (x :: List.replicate k ' ') :=
      noDigit_cons (not_digit_of_lower hx (sideChar_digit upper))
    have hplus : ¬some (sideChar upper) = some '+' := by cases upper <;> decide
    rw [hread, readBandwidth_numeral code n hdigit, widthOf, peek_cons, hx, Option.bind_some,
      sideLetter_sideChar]
    by_cases hc : code = wlChanspecBand2g ∧ n.ulong = 40
    · have hbw : bwChspec n.ulong = some wlChanspecBw40 := by rw [hc.2]; rfl
      rw [if_pos hc, if_pos hc, hbw, hc.2]
      exact ended_spaces _ k
    · simp only [if_neg hc, if_neg hplus]
      cases bwChspec n.ulong with
      | none => rfl
      | some bw => exact ended_cons _ _ (ne_space_of_lower hx)
  | pair n ch1 ch2 =>
    have hread : readWidth code
        ('/' :: (n.text ++ '+' :: '8' :: '0' :: '/' :: (ch1.text ++ '-' :: ch2.text)) ++
          List.replicate k ' ') =
        readBandwidth code (n.text ++
          ('+' :: '8' :: '0' :: '/' ::
              (ch1.text ++ '-' :: (ch2.text ++ List.replicate k ' ')))) := by
      simp only [List.cons_append, List.append_assoc]
      rfl
    have hside : ((some '+').bind sideLetter : Option Bool) = none := rfl
    have hpeek : ∀ b, peek ('+' :: b) = some '+' := fun _ => rfl
    rw [hread, readBandwidth_numeral code n (noDigit_cons rfl), widthOf, hpeek, hside, ite_self]
    simp only [if_true, List.tail_cons, readPair_written]
    cases bwChspec n.ulong with
    | none => rfl
    | some bw => exact ended_spaces _ k

theorem ended_some {x : Width × List Char} {w : Width} (h : ended x = some w) :
    ∃ k, x.2 = List.replicate k ' ' := by
  rw [ended] at h
  split at h
  · cases h
  · rename_i hdrop
    rw [ne_eq, not_not, List.dropWhile_eq_nil_iff] at hdrop
    refine ⟨x.2.length, List.eq_replicate_iff.mpr ⟨rfl, fun c hc => ?_⟩⟩
    simpa using hdrop c hc

theorem readPair_some {bw : Nat} {a rest : List Char} {w : Width}
    (h : readPair bw a = some (w, rest)) :
    ∃ ch1 ch2 : Numeral, a = '8' :: '0' :: '/' :: (ch1.text ++ '-' :: (ch2.text ++ rest)) := by
  obtain ⟨a1, hword, h⟩ := Option.bind_eq_some_iff.mp h
  obtain ⟨⟨v1, a2⟩, h1, h⟩ := Option.bind_eq_some_iff.mp h
  obtain ⟨a3, hdash, h⟩ := Option.bind_eq_some_iff.mp h
  obtain ⟨⟨v2, a4⟩, h2, h⟩ := Option.bind_eq_some_iff.mp h
  obtain ⟨-, rfl⟩ := Prod.mk.inj (Option.some.inj h)
  obtain ⟨ch1, rfl, -⟩ := strtoul_eq_some h1
  obtain ⟨ch2, rfl, -⟩ := strtoul_eq_some h2
  refine ⟨ch1, ch2, ?_⟩
  rw [consume_some hword, consume_some hdash]
  rfl

theorem readWidth_some {code : Nat} {a : List Char} {w : Width}
    (h : (readWidth code a).bind ended = some w) :
    ∃ t b k, TailText t b ∧ a = b ++ List.replicate k ' ' := by
  obtain ⟨⟨w', rest⟩, hread, hend⟩ := Option.bind_eq_some_iff.mp h
  obtain ⟨k, hk⟩ := ended_some hend
  simp only at hk
  subst hk
  rw [readWidth] at hread
  split at hread
  · obtain ⟨-, rfl⟩ := Prod.mk.inj (Option.some.inj hread)
    exact ⟨.none, [], k, .none, rfl⟩
  · rename_i c hc
    obtain ⟨d, b, rfl, hd⟩ := peek_some hc
    split at hread
    · rename_i upper hside
      obtain ⟨-, rfl⟩ := Prod.mk.inj (Option.some.inj hread)
      rw [sideLetter_some hside] at hd
      exact ⟨.side upper, [d], k, .side upper hd, rfl⟩
    · split at hread
      · rename_i hslash
        obtain rfl := eq_of_toLower (hd.trans hslash) (by decide)
        rw [List.tail_cons] at hread
        obtain ⟨⟨v, rest⟩, hnum, -⟩ := Option.bind_eq_some_iff.mp hread
        obtain ⟨n, rfl, -, hdigit⟩ := strtoul_eq_some hnum
        rw [readBandwidth_numeral code n hdigit] at hread
        obtain ⟨bw, -, hread⟩ := Option.bind_eq_some_iff.mp hread
        split at hread
        · rename_i upper hside
          obtain ⟨-, hk⟩ := Prod.mk.inj (Option.some.inj hread)
          split at hside
          · obtain ⟨x, hx, hupper⟩ := Option.bind_eq_some_iff.mp hside
            obtain ⟨d', b', rfl, hd'⟩ := peek_some hx
            rw [sideLetter_some hupper] at hd'
            refine ⟨.widthSide n upper, _, k, .widthSide n upper hd', ?_⟩
            rw [List.tail_cons] at hk
            rw [hk, List.cons_append, List.append_assoc, List.singleton_append]
          · cases hside
        · split at hread
          · rename_i hplus
            obtain ⟨d', b', rfl, hd'⟩ := peek_some hplus
            obtain rfl := eq_of_toLower hd' (by decide)
            obtain ⟨ch1, ch2, hpair⟩ := readPair_some hread
            rw [List.tail_cons] at hpair
            refine ⟨.pair n ch1 ch2, _, k, .pair n ch1 ch2, ?_⟩
            rw [hpair]
            simp only [List.cons_append, List.append_assoc]
          · obtain ⟨-, rfl⟩ := Prod.mk.inj (Option.some.inj hread)
            exact ⟨.width n, _, k, .width n, rfl⟩
      · cases hread

/-! ## The whole string -/

/-- The chanspec of a reading. -/
def Reading.chspec (r : Reading) : Option Nat := do
  let code ← readBandOf (r.band.map Numeral.ulong) r.channel.ulong
  let w ← widthOf code r.spaces r.tail
  chspecPack code r.channel.ulong w

theorem aton_eq (a : List Char) : wfChspecAton a = Option.getD ((readBand a).bind fun x =>
    ((readWidth x.1 x.2.2).bind ended).bind fun w => chspecPack x.1 x.2.1 w) 0 := by
  rw [wfChspecAton]
  congr 1
  cases readBand a with
  | none => rfl
  | some x =>
    simp only [Option.bind_eq_bind, Option.bind_some]
    cases readWidth x.1 x.2.2 with
    | none => rfl
    | some y =>
      simp only [Option.bind_some, ended]
      split <;> rfl

/-- **The result for every text of the wider form.** -/
theorem aton_written {r : Reading} {s : List Char} (h : r.Written s) :
    wfChspecAton s = r.chspec.getD 0 := by
  obtain ⟨b, t, hb, ht, rfl⟩ := h
  obtain ⟨hdigit, hg⟩ := ht.start r.spaces
  rw [aton_eq, readBand_written hb r.channel hdigit hg, Reading.chspec]
  cases readBandOf (r.band.map Numeral.ulong) r.channel.ulong with
  | none => rfl
  | some code =>
    simp only [Option.map_some, Option.bind_eq_bind, Option.bind_some, readWidth_written ht]

/-- **No other text is accepted.** -/
theorem written_of_aton {s : List Char} (h : wfChspecAton s ≠ 0) : ∃ r : Reading, r.Written s := by
  rw [aton_eq] at h
  cases hband : readBand s with
  | none => exact absurd (by rw [hband]; rfl) h
  | some x =>
    obtain ⟨code, channel, rest⟩ := x
    simp only [hband, Option.bind_some] at h
    cases hwidth : (readWidth code rest).bind ended with
    | none => exact absurd (by rw [hwidth]; rfl) h
    | some w =>
      obtain ⟨band, b, n, hb, rfl⟩ := readBand_some hband
      obtain ⟨t, a, k, ht, rfl⟩ := readWidth_some hwidth
      exact ⟨⟨band, n, t, k⟩, b, a, hb, ht, rfl⟩

end BroadcomWl.Wlconf
