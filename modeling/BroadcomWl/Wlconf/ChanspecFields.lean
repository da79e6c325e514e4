import BroadcomWl.Wlconf.Chanspec

/-!
# The fields of a chanspec

A chanspec has a channel of 8 bits, a sideband of 3, a bandwidth of 3 and a band of 2.
`malformed_iff` says what `wf_chspec_malformed` asks of the four numbers: no 80+80 chanspec passes,
because `CHSPEC_CHAN2` gives sixteen times the index of the second segment, which is then compared
with the number of 80MHz channels. `pack_fields` gives the fields of a chanspec that is put together
from a number that may be too large. -/

namespace BroadcomWl.Wlconf

open BroadcomWl.Lib (field field_lt field_lor field_mod land_mask)

variable (c : Nat)

theorem chspecChannel_eq : chspecChannel c = field c 0 8 :=
  (land_mask c 0 8).trans (Nat.mul_one _)

theorem chspecChan1_eq : chspecChan1 c = field c 0 4 :=
  (land_mask c 0 4).trans (Nat.mul_one _)

theorem chspecChan2_eq : chspecChan2 c = field c 4 4 * 16 :=
  land_mask c 4 4

theorem chspecCtlSb_eq : chspecCtlSb c = field c 8 3 * 256 :=
  land_mask c 8 3

theorem chspecBw_eq : chspecBw c = field c 11 3 * 2048 :=
  land_mask c 11 3

theorem chspecBand_eq : chspecBand c = field c 14 2 * 16384 :=
  land_mask c 14 2

/-- What the four fields of a chanspec must satisfy. -/
def Formed (ch sb bw band : Nat) : Prop :=
  (band = 0 ∧ (bw = 2 ∨ bw = 3) ∨
    band = 3 ∧ (bw = 2 ∨ bw = 3 ∨ bw = 4 ∨ bw = 5) ∧ ch ≤ maxchannel) ∧
    (bw = 2 → sb = 0) ∧ (bw = 3 → sb ≤ 1) ∧ (bw = 4 → sb ≤ 3)

/-- **The check, field by field.** Bandwidth 6, which is 80+80, is never well formed. -/
theorem malformed_iff : wfChspecMalformed c = false ↔
    Formed (field c 0 8) (field c 8 3) (field c 11 3) (field c 14 2) := by
  have hbw : field c 11 3 < 8 := field_lt c 11 3
  have hband : field c 14 2 < 4 := field_lt c 14 2
  simp only [wfChspecMalformed, Formed, chspecBw_eq, chspecChannel_eq, chspecCtlSb_eq,
    chspecBand_eq, chspecChan1_eq, chspecChan2_eq, wlChanspecBw20, wlChanspecBw40, wlChanspecBw80,
    wlChanspecBw160, wlChanspecBw8080, wlChanspecBand2g, wlChanspecBand5g, wlChanspecCtlSbLll,
    wlChanspecCtlSbLlu, wlChanspecCtlSbLuu,
    show wf5g80mChans.length = 6 from rfl, maxchannel]
  generalize field c 14 2 = band at hband ⊢
  generalize field c 11 3 = bw at hbw ⊢
  generalize field c 8 3 = sb
  -- one bandwidth and band after the other
  interval_cases bw <;> interval_cases band <;> simp <;> omega

/-- What is put together of a channel number, a band, a bandwidth and a sideband. -/
def packed (ch band bw sb : Nat) : Nat := (ch ||| band ||| bw ||| sb) % 2 ^ 16

theorem packed_field {ch band bw sb i j : Nat} (h : i + j ≤ 16) : field (packed ch band bw sb) i j =
    field ch i j ||| field band i j ||| field bw i j ||| field sb i j := by
  rw [packed, field_mod _ h, field_lor, field_lor, field_lor]

variable {x b k s : Nat}

/-- The fields of a chanspec put together: what a number above 8 bits has in the other fields is
mixed into them. -/
theorem packed_fields (hb : b < 4) (hk : k < 8) (hs : s < 8) :
    field (packed x (b * 16384) (k * 2048) (s * 256)) 0 8 = field x 0 8 ∧
      field (packed x (b * 16384) (k * 2048) (s * 256)) 8 3 = field x 8 3 ||| s ∧
      field (packed x (b * 16384) (k * 2048) (s * 256)) 11 3 = field x 11 3 ||| k ∧
      field (packed x (b * 16384) (k * 2048) (s * 256)) 14 2 = field x 14 2 ||| b := by
  have hfield : ∀ n i j : Nat, field n i j = n / 2 ^ i % 2 ^ j := fun n i j => rfl
  have h0 : field (b * 16384) 0 8 = 0 ∧ field (k * 2048) 0 8 = 0 ∧ field (s * 256) 0 8 = 0 := by
    simp only [hfield]
    omega
  have h8 : field (b * 16384) 8 3 = 0 ∧ field (k * 2048) 8 3 = 0 ∧ field (s * 256) 8 3 = s := by
    simp only [hfield]
    omega
  have h11 : field (b * 16384) 11 3 = 0 ∧ field (k * 2048) 11 3 = k ∧ field (s * 256) 11 3 = 0 := by
    simp only [hfield]
    omega
  have h14 : field (b * 16384) 14 2 = b ∧ field (k * 2048) 14 2 = 0 ∧ field (s * 256) 14 2 = 0 := by
    simp only [hfield]
    omega
  rw [packed_field (by omega), packed_field (by omega), packed_field (by omega),
    packed_field (by omega)]
  simp only [h0, h8, h11, h14, Nat.or_zero, and_self]

/-- A channel number whose upper bits leave the band at 2.4GHz, or whose lower ones are a channel in
range where the band is, or becomes, 5GHz. -/
def Fits (band x : Nat) : Prop :=
  (band = wlChanspecBand2g ∧ field x 14 2 = 0) ∨
    ((band ≠ wlChanspecBand2g ∨ field x 14 2 = 3) ∧ field x 0 8 ≤ maxchannel)

/-- The bits of `x` above a channel number, mixed into the fields of a 20MHz chanspec, leave it well
formed. -/
def Slips20 (band x : Nat) : Prop := Fits band x ∧ field x 11 3 < 4 ∧ field x 8 3 ≤ field x 11 3 % 2

/-- The same for a 40MHz chanspec with the upper sideband. -/
def SlipsUpper (band x : Nat) : Prop := Fits band x ∧ field x 11 3 < 4 ∧ field x 8 3 ≤ 1

variable {band : Nat}

theorem or_two {p : Nat} (h : p < 8) : p ||| 2 = p % 2 + 2 + p / 4 * 4 := by
  interval_cases p <;> rfl

theorem or_three {p : Nat} (h : p < 8) : p ||| 3 = 3 + p / 4 * 4 := by
  interval_cases p <;> rfl

/-- The band is that of the chanspec, unless the number has bits of the band. -/
theorem or_band {q b : Nat} (h : q < 4) (hb : b = 0 ∨ b = 3) :
    q ||| b = if b = 0 then q else 3 := by
  rcases hb with rfl | rfl
  · exact Nat.or_zero q
  · interval_cases q <;> rfl

theorem malformed_20 (hb : b = 0 ∨ b = 3) :
    wfChspecMalformed (packed x (b * 16384) wlChanspecBw20 0) = false ↔ Slips20 (b * 16384) x := by
  have hp : field x 11 3 < 8 := field_lt x 11 3
  have hq : field x 14 2 < 4 := field_lt x 14 2
  obtain ⟨h0, h8, h11, h14⟩ := @packed_fields x b 2 0 (by omega) (by omega) (by omega)
  have hpack : packed x (b * 16384) wlChanspecBw20 0 = packed x (b * 16384) (2 * 2048) (0 * 256) :=
    rfl
  rw [malformed_iff, hpack, h0, h8, h11, h14, Nat.or_zero, or_two hp, or_band hq hb]
  clear hpack h0 h8 h11 h14
  simp only [Slips20, Fits, Formed, wlChanspecBand2g, maxchannel]
  rcases hb with rfl | rfl
  · simp only [Nat.zero_mul, if_true, ne_eq, not_true, true_and, false_or]
    omega
  · simp only [show ¬(3 : Nat) * 16384 = 0 by decide, show ¬(3 : Nat) = 0 by decide, if_false,
      ne_eq, not_false_iff, true_or, true_and, false_and, false_or]
    omega

theorem malformed_upper (hb : b = 0 ∨ b = 3) :
    wfChspecMalformed (packed x (b * 16384) wlChanspecBw40 wlChanspecCtlSbLlu) = false ↔
    SlipsUpper (b * 16384) x := by
  have hp : field x 11 3 < 8 := field_lt x 11 3
  have hq : field x 14 2 < 4 := field_lt x 14 2
  have hs : field x 8 3 < 8 := field_lt x 8 3
  obtain ⟨h0, h8, h11, h14⟩ := @packed_fields x b 3 1 (by omega) (by omega) (by omega)
  have hpack : packed x (b * 16384) wlChanspecBw40 wlChanspecCtlSbLlu =
      packed x (b * 16384) (3 * 2048) (1 * 256) := rfl
  have hone : field x 8 3 ||| 1 ≤ 1 ↔ field x 8 3 ≤ 1 := by
    generalize field x 8 3 = t at *
    interval_cases t <;> decide
  rw [malformed_iff, hpack, h0, h8, h11, h14, or_three hp, or_band hq hb, Formed, hone]
  clear hpack h0 h8 h11 h14 hone
  simp only [SlipsUpper, Fits, wlChanspecBand2g, maxchannel]
  rcases hb with rfl | rfl
  · simp only [Nat.zero_mul, if_true, ne_eq, not_true, true_and, false_or]
    omega
  · simp only [show ¬(3 : Nat) * 16384 = 0 by decide, show ¬(3 : Nat) = 0 by decide, if_false,
      ne_eq, not_false_iff, true_or, true_and, false_and, false_or]
    omega

end BroadcomWl.Wlconf
