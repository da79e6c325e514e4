import BroadcomWl.Wlconf.ChanspecGrammar

/-!
# Chanspecs and their text

`chanspec_text_iff` says of every string whether `wf_chspec_aton` returns what the string denotes.
It does unless the string denotes a channel that the function does not support (bands 3 and 4,
bandwidths 5 and 10, and every 80+80 channel), or denotes none and slips through: the numbers are
not bounded before they are put into bit fields, and they may be written with blanks and a sign.
Every valid chanspec is read back from the text that `wf_chspec_ntoa` gives it. -/

namespace BroadcomWl.Wlconf

open BroadcomWl.Lib (Numeral field field_lt field_lor field_mod ulongMax)

/-! ## The condition -/

/-- What follows a channel is supported. -/
def tailSupported (control spaces : Nat) : Tail → Prop
  | .none => spaces = 0
  | .side upper => upper = true ∨ control ≠ 222
  | .width n => n.value ≠ 5 ∧ n.value ≠ 10
  | .widthSide _ upper => upper = true ∨ control ≠ 222
  | .pair _ _ _ => False

/-- The function supports bands 2 and 5, bandwidths of 20, 40, 80 and 160MHz, white space behind a
sideband or a bandwidth, and no lower sideband at channel 222. -/
def Reading.Supported (r : Reading) : Prop :=
  (∀ n ∈ r.band, n.value = 2 ∨ n.value = 5) ∧ tailSupported r.channel.value r.spaces r.tail

/-- What follows a channel lets it through, whatever the numbers are meant to say. -/
def tailTaken (band : Band) (control spaces : Nat) : Tail → Prop
  | .none => spaces = 0 ∧ Slips20 (band.code * 16384) control
  | .side upper => upper = true → SlipsUpper (band.code * 16384) (control - 2)
  | .width n => (n.ulong = 20 ∧ Slips20 (band.code * 16384) control) ∨
    ∃ x ∈ wide n.ulong, (centerOf x.2 n.ulong control).isSome ∧ (band = .g2 → n.ulong = 40)
  | .widthSide n upper =>
    band = .g2 ∧ n.ulong = 40 ∧ (upper = true → SlipsUpper (band.code * 16384) (control - 2))
  | .pair _ _ _ => False

/-- The numbers of the text, as `strtoul` gives them, come out as a chanspec that is
not malformed. -/
def Reading.Taken (r : Reading) : Prop :=
  ∃ band : Band, (band = .g2 ∨ band = .g5) ∧
    bandOf (r.band.map Numeral.ulong) r.channel.ulong = some band ∧
    tailTaken band r.channel.ulong r.spaces r.tail

/-! ## Putting a chanspec together -/

theorem chspecPack_eq (code control : Nat) (w : Width) : chspecPack code control w =
    (chspecParts control w).bind fun p =>
      if wfChspecMalformed (packed p.1 code w.chspecBw p.2) then none
      else some (packed p.1 code w.chspecBw p.2) := by
  rw [chspecPack]
  rfl

theorem chspecPack_ne_zero {code control v : Nat} {w : Width}
    (h : chspecPack code control w = some v) : v ≠ 0 := by
  rw [chspecPack_eq] at h
  obtain ⟨p, -, h⟩ := Option.bind_eq_some_iff.mp h
  split at h
  · cases h
  · rename_i hm
    obtain rfl := Option.some.inj h
    have hformed := (malformed_iff _).mp (eq_false_of_ne_true hm)
    intro hzero
    rw [hzero] at hformed
    simp [Formed, field] at hformed

/-- **No 80+80 chanspec is put together.** -/
theorem chspecPack_pair {code control : Nat} {w : Width} (hw : w.chspecBw = wlChanspecBw8080) :
    chspecPack code control w = none := by
  rw [chspecPack_eq]
  cases chspecParts control w with
  | none => rfl
  | some p =>
    rw [Option.bind_some, if_pos]
    apply Bool.eq_true_of_not_eq_false
    intro hm
    have hformed := (malformed_iff _).mp hm
    have hbw : 6 ≤ field (packed p.1 code w.chspecBw p.2) 11 3 := by
      rw [packed_field (by omega), hw]
      exact Nat.right_le_or.trans Nat.left_le_or
    simp only [Formed] at hformed
    omega

theorem packed_small {x b k s : Nat} (hx : x < 256) (hb : b < 4) (hk : k < 8) (hs : s < 8) :
    field (packed x (b * 16384) (k * 2048) (s * 256)) 0 8 = x ∧
      field (packed x (b * 16384) (k * 2048) (s * 256)) 8 3 = s ∧
      field (packed x (b * 16384) (k * 2048) (s * 256)) 11 3 = k ∧
      field (packed x (b * 16384) (k * 2048) (s * 256)) 14 2 = b := by
  obtain ⟨h0, h8, h11, h14⟩ := @packed_fields x b k s hb hk hs
  have hfield : ∀ n i j : Nat, field n i j = n / 2 ^ i % 2 ^ j := fun n i j => rfl
  have hx0 : field x 0 8 = x ∧ field x 8 3 = 0 ∧ field x 11 3 = 0 ∧ field x 14 2 = 0 := by
    simp only [hfield]
    omega
  rw [h0, h8, h11, h14, hx0.1, hx0.2.1, hx0.2.2.1, hx0.2.2.2, Nat.zero_or, Nat.zero_or, Nat.zero_or]
  exact ⟨rfl, rfl, rfl, rfl⟩

theorem Band.code_cases {band : Band} (h : band = .g2 ∨ band = .g5) :
    band.code = 0 ∨ band.code = 3 := by
  rcases h with rfl | rfl
  · exact .inl rfl
  · exact .inr rfl

theorem pack_of_parts {code control ch sb : Nat} {w : Width}
    (h : chspecParts control w = some (ch, sb)) :
    chspecPack code control w = if wfChspecMalformed (packed ch code w.chspecBw sb) = false then
      some (packed ch code w.chspecBw sb) else none := by
  rw [chspecPack_eq, h, Option.bind_some]
  cases wfChspecMalformed (packed ch code w.chspecBw sb) <;> rfl

variable {b control bw : Nat}

/-- **20MHz.** -/
theorem pack_20 (hb : b = 0 ∨ b = 3) :
    (chspecPack (b * 16384) control ⟨bw, wlChanspecBw20, none, 0, 0⟩).isSome ↔
    Slips20 (b * 16384) control := by
  have hparts : chspecParts control ⟨bw, wlChanspecBw20, none, 0, 0⟩ = some (control, 0) := rfl
  rw [pack_of_parts hparts, ← malformed_20 hb]
  split <;> simp [*]

/-- **The upper sideband.** -/
theorem pack_upper (hb : b = 0 ∨ b = 3) :
    (chspecPack (b * 16384) control ⟨bw, wlChanspecBw40, some true, 0, 0⟩).isSome ↔
      SlipsUpper (b * 16384) (control - 2) := by
  have hparts : chspecParts control ⟨bw, wlChanspecBw40, some true, 0, 0⟩ =
      some (lower20Sb control, wlChanspecCtlSbLlu) := rfl
  have hlower : lower20Sb control = control - 2 := by
    rw [lower20Sb]
    split <;> omega
  rw [pack_of_parts hparts, hlower, ← malformed_upper hb]
  split <;> simp [*]

/-- **The lower sideband**: the sum is replaced by 0 where it would be too large, which is well
formed. -/
theorem pack_lower (hb : b = 0 ∨ b = 3) :
    chspecPack (b * 16384) control ⟨bw, wlChanspecBw40, some false, 0, 0⟩ =
      some (packed (upper20Sb control) (b * 16384) (3 * 2048) (0 * 256)) := by
  have hparts : chspecParts control ⟨bw, wlChanspecBw40, some false, 0, 0⟩ =
      some (upper20Sb control, wlChanspecCtlSbLll) := rfl
  have hsmall : upper20Sb control ≤ maxchannel := by
    rw [upper20Sb, maxchannel]
    split <;> omega
  have h255 : upper20Sb control < 256 := hsmall.trans_lt (by decide)
  obtain ⟨h0, h8, h11, h14⟩ :=
    packed_small h255 (by omega : b < 4) (by omega : 3 < 8) (by omega : 0 < 8)
  rw [pack_of_parts hparts, if_pos]
  · rfl
  · apply (malformed_iff _).mpr
    have heq : packed (upper20Sb control) (b * 16384) wlChanspecBw40 wlChanspecCtlSbLll =
        packed (upper20Sb control) (b * 16384) (3 * 2048) (0 * 256) := rfl
    rw [heq, h0, h8, h11, h14, Formed]
    omega

/-! ## Wide channels -/

variable {m n sb : Nat}

theorem channelLowEdge_eq (hn : 20 ≤ n) (hn' : n ≤ 160) (hm : (n - 20) / 10 ≤ m) (hm' : m < 256) :
    channelLowEdge m n = m - (n - 20) / 10 := by
  have hedge : centerChanToEdge n = (n - 20) / 10 := by
    rw [centerChanToEdge, subU32]
    omega
  rw [channelLowEdge, hedge, subU32]
  omega

/-- **The sideband.** The subtractions wrap, but no channel number fits after a wrap. -/
theorem channelToSb_eq_some (hn : 20 ≤ n) (hn' : n ≤ 160) (hm : (n - 20) / 10 ≤ m) (hm' : m < 256)
    (hc : control < 2 ^ 32) :
    channelToSb m control n = some sb ↔ control = m - (n - 20) / 10 + 4 * sb ∧ sb < n / 20 := by
  rw [channelToSb, channelLowEdge_eq hn hn' hm hm']
  have hlow : m - (n - 20) / 10 < 256 := by omega
  have hfits : ∀ k < 8, subU32 control (m - (n - 20) / 10) = 4 * k ↔
      control = m - (n - 20) / 10 + 4 * k := by
    intro k hk
    unfold subU32
    omega
  generalize m - (n - 20) / 10 = low at *
  generalize subU32 control low = d at *
  constructor
  · intro h
    split at h
    · cases h
    · rename_i hmod
      dsimp only at h
      split at h
      · cases h
      · obtain rfl := Option.some.inj h
        have hlt : d / 4 < n / 20 := by omega
        exact ⟨(hfits (d / 4) (by omega)).mp (by omega), hlt⟩
  · rintro ⟨hcontrol, hsb⟩
    obtain rfl := (hfits sb (by omega)).mpr hcontrol
    rw [if_neg (by omega), Nat.mul_div_cancel_left sb (by omega)]
    exact if_neg (by omega)

theorem mem_subchannels :
    control ∈ subchannels m n ↔ ∃ k < n / 20, m - (n - 20) / 10 + 4 * k = control := by
  simp only [subchannels, List.mem_map, List.mem_range]

theorem centerOf_cons (centers : List Nat) : centerOf (m :: centers) n control =
    if control ∈ subchannels m n then some m else centerOf centers n control := by
  by_cases h : control ∈ subchannels m n
  · rw [if_pos h]
    exact List.find?_cons_of_pos (by simpa using h)
  · rw [if_neg h]
    exact List.find?_cons_of_neg (by simpa using h)

theorem findCenter_cons (centers : List Nat) : findCenter (m :: centers) control n =
    ((channelToSb m control n).map fun sb => (m, sb)).or (findCenter centers control n) := by
  have hcons : ∀ f : Nat → Option (Nat × Nat), (m :: centers).findSome? f =
      (f m).or (centers.findSome? f) := by
    intro f
    rw [List.findSome?_cons]
    cases f m <;> rfl
  exact hcons _

theorem findCenter_eq (hn : 20 ≤ n) (hn' : n ≤ 160) (hc : control < 2 ^ 32) {centers : List Nat}
    (hcenters : ∀ m ∈ centers, (n - 20) / 10 ≤ m ∧ m < 256) : findCenter centers control n =
      (centerOf centers n control).map fun m => (m, (control - (m - (n - 20) / 10)) / 4) := by
  induction centers with
  | nil => rfl
  | cons m centers ih =>
    obtain ⟨hm, hm'⟩ := hcenters m List.mem_cons_self
    rw [findCenter_cons, centerOf_cons, ih fun m' h => hcenters m' (List.mem_cons_of_mem m h)]
    by_cases hmem : control ∈ subchannels m n
    · obtain ⟨k, hk, hcontrol⟩ := mem_subchannels.mp hmem
      have hsb := (channelToSb_eq_some hn hn' hm hm' hc).mpr ⟨hcontrol.symm, hk⟩
      have hk' : (control - (m - (n - 20) / 10)) / 4 = k := by omega
      rw [hsb, if_pos hmem, Option.map_some, Option.map_some, hk', Option.some_or]
    · have hsb : channelToSb m control n = none := by
        rw [Option.eq_none_iff_forall_ne_some]
        intro sb h
        obtain ⟨hcontrol, hlt⟩ := (channelToSb_eq_some hn hn' hm hm' hc).mp h
        exact hmem (mem_subchannels.mpr ⟨sb, hlt, hcontrol.symm⟩)
      rw [hsb, if_neg hmem, Option.map_none, Option.none_or]

variable {w : Bandwidth} {centers : List Nat}

theorem wide_cases (h : wide n = some (w, centers)) : (n = 40 ∧ w = .w40 ∧ centers = wf5g40mChans) ∨
    (n = 80 ∧ w = .w80 ∧ centers = wf5g80mChans) ∨
    (n = 160 ∧ w = .w160 ∧ centers = wf5g160mChans) := by
  rw [wide] at h
  split at h
  · obtain ⟨rfl, rfl⟩ := Prod.mk.inj (Option.some.inj h)
    exact .inl ⟨‹_›, rfl, rfl⟩
  · split at h
    · obtain ⟨rfl, rfl⟩ := Prod.mk.inj (Option.some.inj h)
      exact .inr (.inl ⟨‹_›, rfl, rfl⟩)
    · split at h
      · obtain ⟨rfl, rfl⟩ := Prod.mk.inj (Option.some.inj h)
        exact .inr (.inr ⟨‹_›, rfl, rfl⟩)
      · cases h

theorem wide_spec (h : wide n = some (w, centers)) :
    40 ≤ n ∧ n ≤ 160 ∧ bwChspec n = some (w.code * 2048) ∧
    centerChans (w.code * 2048) = centers ∧ (∀ m ∈ centers, (n - 20) / 10 ≤ m ∧ m ≤ 159) ∧
    (w.code = 3 ∧ n = 40 ∨ w.code = 4 ∧ n = 80 ∨ w.code = 5 ∧ n = 160) := by
  rcases wide_cases h with ⟨rfl, rfl, rfl⟩ | ⟨rfl, rfl, rfl⟩ | ⟨rfl, rfl, rfl⟩
  · decide
  · decide
  · decide

theorem centerOf_some (h : centerOf centers n control = some m) :
    m ∈ centers ∧ ∃ k < n / 20, m - (n - 20) / 10 + 4 * k = control := by
  have hmem : control ∈ subchannels m n := by simpa using List.find?_some h
  exact ⟨List.mem_of_find?_eq_some h, mem_subchannels.mp hmem⟩

theorem chspecParts_wide (hcode : w.code = 3 ∨ w.code = 4 ∨ w.code = 5) :
    chspecParts control ⟨n, w.code * 2048, none, 0, 0⟩ =
      (findCenter (centerChans (w.code * 2048)) control n).map fun x => (x.1, x.2 * 256) := by
  have h20 : ¬w.code * 2048 = wlChanspecBw20 := by
    rw [wlChanspecBw20]
    omega
  have h8080 : w.code * 2048 ≠ wlChanspecBw8080 := by
    rw [wlChanspecBw8080]
    omega
  have hside : ∀ x : Bool, ¬(none : Option Bool) = some x := fun _ h => by cases h
  rw [chspecParts, if_neg (hside false), if_neg (hside true), if_neg h20, if_pos h8080]
  cases findCenter (centerChans (w.code * 2048)) control n with
  | none => rfl
  | some x => rw [Option.map_some, ← Nat.shiftLeft_eq x.2 8]; rfl

/-- **Wide channels**: the chanspec of the center that has this control channel. -/
theorem pack_wide (hb : b = 0 ∨ b = 3) (hc : control < 2 ^ 32) (h : wide n = some (w, centers)) :
    chspecPack (b * 16384) control ⟨n, w.code * 2048, none, 0, 0⟩ =
      (centerOf centers n control).bind fun m =>
      if b = 3 ∨ n = 40 then
        some (packed m (b * 16384) (w.code * 2048) ((control - (m - (n - 20) / 10)) / 4 * 256))
      else none := by
  obtain ⟨hn, hn', -, hchans, hcenters, hcode⟩ := wide_spec h
  have hfind := findCenter_eq (by omega) hn' hc fun m hm =>
    ⟨(hcenters m hm).1, (hcenters m hm).2.trans_lt (by decide : 159 < 256)⟩
  have hparts := @chspecParts_wide control n w (by omega)
  rw [hchans, hfind] at hparts
  cases hcenter : centerOf centers n control with
  | none =>
    rw [hcenter] at hparts
    rw [chspecPack_eq, hparts]
    rfl
  | some m =>
    obtain ⟨hmem, k, hk, hcontrol⟩ := centerOf_some hcenter
    have hsb : (control - (m - (n - 20) / 10)) / 4 = k := by omega
    have hm := hcenters m hmem
    rw [hcenter, Option.map_some, Option.map_some] at hparts
    simp only [hsb] at hparts
    obtain ⟨h0, h8, h11, h14⟩ :=
      packed_small (by omega : m < 256) (by omega : b < 4) (by omega : w.code < 8)
      (by omega : k < 8)
    have hformed : wfChspecMalformed (packed m (b * 16384) (w.code * 2048) (k * 256)) = false ↔
        b = 3 ∨ n = 40 := by
      rw [malformed_iff, h0, h8, h11, h14, Formed, maxchannel]
      omega
    rw [pack_of_parts hparts, Option.bind_some, hsb]
    by_cases h40 : b = 3 ∨ n = 40
    · rw [if_pos h40, if_pos (hformed.mpr h40)]
    · rw [if_neg h40, if_neg fun h => h40 (hformed.mp h)]

/-! ## What the function accepts -/

variable {band : Band} {spaces : Nat} {t : Tail} {r : Reading}

theorem band_2g (h : band = .g2 ∨ band = .g5) :
    band.code * 16384 = wlChanspecBand2g ↔ band = .g2 := by
  rcases h with rfl | rfl <;> decide

theorem readBandOf_eq (num : Option Nat) (channel : Nat) : readBandOf num channel =
    (bandOf num channel).bind fun band => if band = .g2 ∨ band = .g5 then some (band.code * 16384)
      else none := by
  cases num with
  | none =>
    rw [readBandOf, bandOf]
    split <;> rfl
  | some n =>
    simp only [readBandOf, bandOf, bandChspec]
    split
    · rfl
    · by_cases h3 : n = 3
      · subst h3
        rfl
      · by_cases h4 : n = 4
        · subst h4
          rfl
        · rw [if_neg h3, if_neg h4]
          split <;> rfl

theorem bwChspec_cases (n : Nat) : (n = 20 ∧ bwChspec n = some wlChanspecBw20 ∧ wide n = none) ∨
    (∃ w centers, wide n = some (w, centers) ∧ n ≠ 20 ∧ bwChspec n = some (w.code * 2048)) ∨
    (n ≠ 20 ∧ wide n = none ∧ bwChspec n = none) := by
  by_cases h20 : n = 20
  · subst h20
    exact .inl ⟨rfl, rfl, rfl⟩
  · cases h : wide n with
    | none =>
      refine .inr (.inr ⟨h20, rfl, ?_⟩)
      rw [wide] at h
      split_ifs at h with h40 h80 h160
      rw [bwChspec, if_neg h20, if_neg h40, if_neg h80, if_neg h160]
    | some x => exact .inr (.inl ⟨x.1, x.2, rfl, h20, (wide_spec h).2.2.1⟩)

/-- **The tail is taken.** One case for each form. -/
theorem tail_taken (hband : band = .g2 ∨ band = .g5) (hc : control < 2 ^ 32) :
    ((widthOf (band.code * 16384) spaces t).bind (chspecPack (band.code * 16384) control)).isSome ↔
      tailTaken band control spaces t := by
  have hcode := Band.code_cases hband
  cases t with
  | none =>
    rw [widthOf, tailTaken]
    by_cases hspaces : spaces = 0
    · rw [if_pos hspaces, Option.bind_some, pack_20 hcode]
      simp [hspaces]
    · simp [hspaces]
  | side upper =>
    rw [widthOf, tailTaken, Option.bind_some]
    cases upper
    · simp [pack_lower hcode]
    · simp [pack_upper hcode]
  | width n =>
    rw [widthOf, tailTaken]
    rcases bwChspec_cases n.ulong with ⟨h20, hbw, hwide⟩ | ⟨w, centers, hwide, h20, hbw⟩ |
      ⟨h20, hwide, hbw⟩
    · have hnone : ¬∃ x ∈ wide n.ulong, (centerOf x.2 n.ulong control).isSome ∧
          (band = .g2 → n.ulong = 40) := by
        rw [hwide]
        rintro ⟨x, hx, -⟩
        cases hx
      rw [hbw, Option.map_some, Option.bind_some, pack_20 hcode]
      exact ⟨fun h => .inl ⟨h20, h⟩, fun h => h.elim (·.2) fun h => absurd h hnone⟩
    · have hband40 : (band = .g2 → n.ulong = 40) ↔ band.code = 3 ∨ n.ulong = 40 := by
        rcases hband with rfl | rfl <;> simp [Band.code]
      have hsome : (∃ x ∈ wide n.ulong, (centerOf x.2 n.ulong control).isSome ∧
          (band = .g2 → n.ulong = 40)) ↔
          (centerOf centers n.ulong control).isSome ∧ (band.code = 3 ∨ n.ulong = 40) := by
        rw [hwide, ← hband40]
        constructor
        · rintro ⟨x, hx, h⟩
          obtain rfl := Option.some.inj hx
          exact h
        · exact fun h => ⟨_, rfl, h⟩
      rw [hbw, Option.map_some, Option.bind_some, pack_wide hcode hc hwide, hsome]
      cases centerOf centers n.ulong control with
      | none => simp [h20]
      | some m => simp [h20]
    · simp [hbw, h20, hwide]
  | widthSide n upper =>
    rw [widthOf, tailTaken]
    simp only [band_2g hband]
    by_cases h : band = .g2 ∧ n.ulong = 40
    · rw [if_pos h, Option.bind_some]
      cases upper
      · rw [pack_lower hcode]
        simp [h.1, h.2]
      · rw [pack_upper hcode]
        simp [h.1, h.2]
    · rw [if_neg h]
      simp
      tauto
  | pair n ch1 ch2 =>
    rw [widthOf, tailTaken]
    cases bwChspec n.ulong with
    | none => simp
    | some bw => simp [chspecPack_pair]

theorem chspec_bandOf (r : Reading) :
    r.chspec = (bandOf (r.band.map Numeral.ulong) r.channel.ulong).bind fun band =>
    if band = .g2 ∨ band = .g5 then
      (widthOf (band.code * 16384) r.spaces r.tail).bind
        (chspecPack (band.code * 16384) r.channel.ulong)
    else none := by
  rw [Reading.chspec, readBandOf_eq]
  cases bandOf (r.band.map Numeral.ulong) r.channel.ulong with
  | none => rfl
  | some band =>
    simp only [Option.bind_eq_bind, Option.bind_some]
    split <;> rfl

theorem chspec_some_ne_zero {v : Nat} (h : r.chspec = some v) : v ≠ 0 := by
  obtain ⟨code, -, h⟩ := Option.bind_eq_some_iff.mp h
  obtain ⟨w, -, h⟩ := Option.bind_eq_some_iff.mp h
  exact chspecPack_ne_zero h

/-- **Acceptance.** A reading gives a chanspec exactly if it is taken. -/
theorem chspec_taken (r : Reading) : r.chspec.getD 0 ≠ 0 ↔ r.Taken := by
  have hsome : r.chspec.getD 0 ≠ 0 ↔ r.chspec.isSome := by
    cases h : r.chspec with
    | none => simp
    | some v => simpa using chspec_some_ne_zero h
  rw [hsome, chspec_bandOf, Reading.Taken]
  cases bandOf (r.band.map Numeral.ulong) r.channel.ulong with
  | none => simp
  | some band =>
    rw [Option.bind_some]
    split
    · rename_i hband
      rw [tail_taken hband r.channel.ulong_lt]
      exact ⟨fun h => ⟨band, hband, rfl, h⟩, fun ⟨_, _, heq, h⟩ => Option.some.inj heq ▸ h⟩
    · rename_i hband
      simp only [Option.isSome_none, Bool.false_eq_true, false_iff]
      rintro ⟨_, h, heq, -⟩
      exact hband (Option.some.inj heq ▸ h)

/-! ## What the function returns -/

section Packed

variable {x k s : Nat} (hx : x < 256) (hb : b < 4) (hs : s < 8)
include hx hb hs

theorem ctlchan_packed (hk : k = 2 ∨ k = 3 ∧ n = 40 ∨ k = 4 ∧ n = 80 ∨ k = 5 ∧ n = 160) :
    wfChspecCtlchan (packed x (b * 16384) (k * 2048) (s * 256)) = if k = 2 then x
      else channelToCtlChan x n s := by
  obtain ⟨h0, h8, h11, -⟩ := packed_small hx hb (by omega : k < 8) hs
  generalize packed x (b * 16384) (k * 2048) (s * 256) = v at *
  have hshift : (s * 256) >>> 8 = s := by
    rw [Nat.shiftRight_eq_div_pow]
    omega
  have h20 : chspecBw v = wlChanspecBw20 ↔ k = 2 := by
    rw [chspecBw_eq, h11, wlChanspecBw20]
    omega
  have h8080 : ¬chspecBw v = wlChanspecBw8080 := by
    rw [chspecBw_eq, h11, wlChanspecBw8080]
    omega
  rw [wfChspecCtlchan, chspecChannel_eq, h0, chspecCtlSb_eq, h8, wlChanspecCtlSbShift, hshift]
  simp only [h20, if_neg h8080]
  split
  · rfl
  · have hn : bwChspecToMhz v = n := by
      rw [bwChspecToMhz, chspecBw_eq, h11, wlChanspecBwShift]
      rcases hk with rfl | ⟨rfl, rfl⟩ | ⟨rfl, rfl⟩ | ⟨rfl, rfl⟩
      · contradiction
      · decide
      · decide
      · decide
    rw [hn]

theorem carries_packed (hk : k < 8) {center : Nat} :
    Carries (packed x (b * 16384) (k * 2048) (s * 256)) ⟨band, control, w, center, none⟩ ↔
      wfChspecCtlchan (packed x (b * 16384) (k * 2048) (s * 256)) = control ∧ b = band.code ∧
      k = w.code ∧
        x = center := by
  obtain ⟨h0, -, h11, h14⟩ := packed_small hx hb hk hs
  simp only [Carries, chspecBand_eq, chspecBw_eq, chspecChannel_eq, h0, h11, h14, forall_const,
    reduceCtorEq, false_implies, and_true, Nat.mul_left_inj (by decide : 16384 ≠ 0),
    Nat.mul_left_inj (by decide : 2048 ≠ 0)]

end Packed

/-- The value that is read, if there is one. -/
def Returns (v : Option Nat) (d : Channel) : Prop := ∃ chspec, v = some chspec ∧ Carries chspec d

theorem returns_packed {x k s center : Nat} (hx : x < 256) (hb : b < 4) (hs : s < 8) (hk : k < 8) :
    Returns (some (packed x (b * 16384) (k * 2048) (s * 256))) ⟨band, control, w, center, none⟩ ↔
      wfChspecCtlchan (packed x (b * 16384) (k * 2048) (s * 256)) = control ∧ b = band.code ∧
      k = w.code ∧
        x = center := by
  rw [← carries_packed hx hb hs hk]
  exact ⟨fun ⟨_, heq, h⟩ => Option.some.inj heq ▸ h, fun h => ⟨_, rfl, h⟩⟩

theorem not_returns_none {d : Channel} : ¬Returns none d := by
  rintro ⟨_, h, -⟩
  cases h

theorem returns_20 (hband : band = .g2 ∨ band = .g5) (hc : control ≤ maxchannel) :
    Returns (chspecPack (band.code * 16384) control ⟨bw, wlChanspecBw20, none, 0, 0⟩)
      ⟨band, control, .w20, control, none⟩ := by
  have hcode := Band.code_cases hband
  have h255 : control < 256 := hc.trans_lt (by decide)
  have hslips : Slips20 (band.code * 16384) control := by
    have hfield : ∀ i j : Nat, field control i j = control / 2 ^ i % 2 ^ j := fun i j => rfl
    simp only [Slips20, Fits, hfield, maxchannel, wlChanspecBand2g] at hc ⊢
    omega
  have hparts : chspecParts control ⟨bw, wlChanspecBw20, none, 0, 0⟩ = some (control, 0) := rfl
  have heq : packed control (band.code * 16384) wlChanspecBw20 0 =
      packed control (band.code * 16384) (2 * 2048) (0 * 256) := rfl
  rw [pack_of_parts hparts, if_pos ((malformed_20 hcode).mpr hslips), heq,
    returns_packed h255 (by omega) (by omega) (by omega),
    @ctlchan_packed _ 20 _ _ _ h255 (by omega) (by omega) (.inl rfl)]
  exact ⟨rfl, rfl, rfl, rfl⟩

theorem channelToCtlChan_40 {sb : Nat} (hm : m < 252) :
    channelToCtlChan m 40 sb = (m + 254 + sb * 4) % 256 := by
  unfold channelToCtlChan channelLowEdge centerChanToEdge subU32
  omega

theorem returns_upper (hband : band = .g2 ∨ band = .g5) (hc : control ≤ maxchannel)
    (h2 : 2 ≤ control) :
    Returns (chspecPack (band.code * 16384) control ⟨bw, wlChanspecBw40, some true, 0, 0⟩)
      ⟨band, control, .w40, control - 2, none⟩ := by
  have hcode := Band.code_cases hband
  rw [maxchannel] at hc
  have hslips : SlipsUpper (band.code * 16384) (control - 2) := by
    have hfield : ∀ i j : Nat, field (control - 2) i j = (control - 2) / 2 ^ i % 2 ^ j :=
      fun i j => rfl
    simp only [SlipsUpper, Fits, hfield, maxchannel, wlChanspecBand2g]
    omega
  have hlower : lower20Sb control = control - 2 := by
    rw [lower20Sb]
    split <;> omega
  have hparts : chspecParts control ⟨bw, wlChanspecBw40, some true, 0, 0⟩ =
      some (lower20Sb control, wlChanspecCtlSbLlu) := rfl
  have heq : packed (control - 2) (band.code * 16384) wlChanspecBw40 wlChanspecCtlSbLlu =
      packed (control - 2) (band.code * 16384) (3 * 2048) (1 * 256) := rfl
  rw [pack_of_parts hparts, hlower, if_pos ((malformed_upper hcode).mpr hslips), heq,
    returns_packed (by omega) (by omega) (by omega) (by omega),
    @ctlchan_packed _ 40 _ _ _ (by omega) (by omega) (by omega) (.inr (.inl ⟨rfl, rfl⟩)),
    if_neg (by omega), channelToCtlChan_40 (by omega)]
  refine ⟨by omega, rfl, rfl, rfl⟩

theorem returns_lower (hband : band = .g2 ∨ band = .g5) (hc : control + 2 ≤ maxchannel) :
    Returns (chspecPack (band.code * 16384) control ⟨bw, wlChanspecBw40, some false, 0, 0⟩)
      ⟨band, control, .w40, control + 2, none⟩ ↔ control ≠ 222 := by
  have hcode := Band.code_cases hband
  rw [maxchannel] at hc
  have hupper : upper20Sb control = if control = 222 then 0 else control + 2 := by
    by_cases h222 : control = 222
    · rw [upper20Sb, maxchannel, if_neg (by omega), if_pos h222]
    · rw [upper20Sb, maxchannel, if_pos (by omega), if_neg h222]
  have h255 : upper20Sb control < 252 := by
    rw [hupper]
    split <;> omega
  rw [pack_lower hcode, returns_packed (by omega) (by omega) (by omega) (by omega),
    @ctlchan_packed _ 40 _ _ _ (by omega) (by omega) (by omega) (.inr (.inl ⟨rfl, rfl⟩)),
    if_neg (by omega), channelToCtlChan_40 h255, hupper]
  split
  · rename_i h222
    simp [h222]
  · rename_i h222
    exact ⟨fun _ => h222, fun _ => ⟨by omega, rfl, rfl, rfl⟩⟩

theorem returns_wide {centers : List Nat} (hn : wide n = some (w, centers))
    (hcenter : centerOf centers n control = some m) :
    Returns (chspecPack (Band.g5.code * 16384) control ⟨n, w.code * 2048, none, 0, 0⟩)
      ⟨.g5, control, w, m, none⟩ := by
  obtain ⟨h40, h160, -, -, hcenters, hcode⟩ := wide_spec hn
  obtain ⟨hmem, k, hk, hcontrol⟩ := centerOf_some hcenter
  obtain ⟨hm, hm'⟩ := hcenters m hmem
  have hsb : (control - (m - (n - 20) / 10)) / 4 = k := by omega
  have hctl : channelToCtlChan m n k = control := by
    rw [channelToCtlChan, channelLowEdge_eq (by omega) h160 hm (by omega)]
    omega
  rw [@pack_wide Band.g5.code _ _ _ _ (.inr rfl) (by omega) hn, hcenter, Option.bind_some,
    if_pos (.inl rfl), hsb,
    returns_packed (by omega) (by decide) (by omega) (by omega),
    @ctlchan_packed _ n _ _ _ (by omega) (by decide) (by omega) (.inr hcode),
    if_neg (by omega), hctl]
  exact ⟨rfl, rfl, rfl, rfl⟩

theorem narrow_cases {n : Nat} (h : narrow n = some w) :
    (n = 5 ∧ w = .w5) ∨ (n = 10 ∧ w = .w10) ∨ (n = 20 ∧ w = .w20) := by
  rw [narrow] at h
  split_ifs at h with h5 h10 h20
  · exact .inl ⟨h5, (Option.some.inj h).symm⟩
  · exact .inr (.inl ⟨h10, (Option.some.inj h).symm⟩)
  · exact .inr (.inr ⟨h20, (Option.some.inj h).symm⟩)

theorem side_supported {d : Channel} {upper : Bool} (hband : band = .g2 ∨ band = .g5)
    (hc : control ≤ maxchannel) (hd : sideChannel band control upper = some d) :
    (upper = true ∨ control ≠ 222) ↔
      Returns
        (chspecPack (band.code * 16384) control ⟨bw, wlChanspecBw40, some upper, 0, 0⟩) d := by
  rw [sideChannel] at hd
  cases upper
  · rw [if_neg Bool.false_ne_true] at hd
    split_ifs at hd with hup
    obtain rfl := Option.some.inj hd
    rw [returns_lower hband hup]
    simp
  · rw [if_pos rfl] at hd
    split_ifs at hd with hup
    obtain rfl := Option.some.inj hd
    exact ⟨fun _ => returns_upper hband hc hup, fun _ => .inl rfl⟩

/-- **The tail is supported.** One case for each form. -/
theorem tail_supported {d : Channel} (hplain : t.Plain) (hband : band = .g2 ∨ band = .g5)
    (hc : control ≤ maxchannel) (hd : tailDenotation band control t = some d) :
    tailSupported control spaces t ↔
      Returns ((widthOf (band.code * 16384) spaces t).bind
        (chspecPack (band.code * 16384) control)) d := by
  cases t with
  | none =>
    obtain rfl := Option.some.inj hd
    rw [tailSupported, widthOf]
    by_cases hspaces : spaces = 0
    · rw [if_pos hspaces]
      exact ⟨fun _ => returns_20 hband hc, fun _ => hspaces⟩
    · rw [if_neg hspaces]
      exact ⟨fun h => absurd h hspaces, fun h => absurd h not_returns_none⟩
  | side upper =>
    rw [ tailDenotation, if_pos hband] at hd
    exact side_supported hband hc hd
  | width n =>
    rw [tailSupported, widthOf]
    cases hnarrow : narrow n.value with
    | some w =>
      simp only [ tailDenotation, hnarrow] at hd
      obtain rfl := Option.some.inj hd
      rcases narrow_cases hnarrow with ⟨hn, rfl⟩ | ⟨hn, rfl⟩ | ⟨hn, rfl⟩
      · have hul : n.ulong = 5 := (Numeral.ulong_plain hplain (hn ▸ by decide)).trans hn
        rw [hul, hn]
        exact ⟨fun h => absurd rfl h.1, fun h => absurd h not_returns_none⟩
      · have hul : n.ulong = 10 := (Numeral.ulong_plain hplain (hn ▸ by decide)).trans hn
        rw [hul, hn]
        exact ⟨fun h => absurd rfl h.2, fun h => absurd h not_returns_none⟩
      · have hul : n.ulong = 20 := (Numeral.ulong_plain hplain (hn ▸ by decide)).trans hn
        rw [hul, hn]
        exact ⟨fun _ => returns_20 hband hc, fun _ => by decide⟩
    | none =>
      simp only [ tailDenotation, hnarrow] at hd
      obtain ⟨⟨w, centers⟩, hwide, hd⟩ := Option.bind_eq_some_iff.mp hd
      obtain ⟨h40, h160, hbw, -⟩ := wide_spec hwide
      have hul : n.ulong = n.value := Numeral.ulong_plain hplain (h160.trans (by decide))
      simp only at hd
      split_ifs at hd with h5
      · cases hd
      · rw [ne_eq, not_not] at h5
        subst h5
        obtain ⟨m, hcenter, hd⟩ := Option.bind_eq_some_iff.mp hd
        obtain rfl := Option.some.inj hd
        rw [hul, hbw]
        exact ⟨fun _ => returns_wide hwide hcenter, fun _ => by omega⟩
  | widthSide n upper =>
    rw [ tailDenotation] at hd
    split_ifs at hd with h
    have hul : n.ulong = 40 := (Numeral.ulong_plain hplain (h.1 ▸ by decide)).trans h.1
    rw [tailSupported, widthOf, if_pos ⟨(band_2g hband).mpr h.2, hul⟩]
    exact side_supported hband hc hd
  | pair n ch1 ch2 =>
    rw [tailSupported, widthOf]
    cases bwChspec n.ulong with
    | none => exact ⟨False.elim, fun h => absurd h not_returns_none⟩
    | some bw =>
      rw [Option.map_some, Option.bind_some, chspecPack_pair rfl]
      exact ⟨False.elim, fun h => absurd h not_returns_none⟩

/-- The band is one of the function's if it is not given, or is given as 2 or 5. -/
theorem bandOf_plain {num : Option Numeral} {channel : Nat} (hplain : ∀ n ∈ num, n.Plain)
    (h : bandOf (num.map Numeral.value) channel = some band) :
    bandOf (num.map Numeral.ulong) channel = some band ∧
      ((∀ n ∈ num, n.value = 2 ∨ n.value = 5) ↔ band = .g2 ∨ band = .g5) := by
  cases num with
  | none =>
    refine ⟨h, ?_⟩
    simp only [Option.map_none, bandOf, Option.some.injEq] at h
    rw [← h]
    split <;> simp
  | some n =>
    have hn : n.value ≤ 5 := by
      rw [Option.map_some, bandOf] at h
      split_ifs at h <;> omega
    have hul : n.ulong = n.value := Numeral.ulong_plain (hplain n rfl) (hn.trans (by decide))
    rw [Option.map_some, hul]
    refine ⟨h, ?_⟩
    rw [Option.map_some, bandOf] at h
    simp only [Option.mem_def, Option.some.injEq, forall_eq']
    split_ifs at h with h2 h3 h4 h5
    · simp [h2, ← Option.some.inj h]
    · simp [h3, ← Option.some.inj h]
    · simp [h4, ← Option.some.inj h]
    · simp [h5, ← Option.some.inj h]

/-- **The whole text.** A text of the grammar is supported exactly if the function returns what it
denotes. -/
theorem reading_supported {d : Channel} (hplain : r.Plain) (hd : r.denotation = some d) :
    r.Supported ↔ r.chspec.getD 0 ≠ 0 ∧ Carries (r.chspec.getD 0) d := by
  obtain ⟨band, hband, hd⟩ := Option.bind_eq_some_iff.mp hd
  dsimp only at hd
  split_ifs at hd with hc
  · cases hd
  rw [not_lt] at hc
  have hul : r.channel.ulong = r.channel.value :=
    Numeral.ulong_plain hplain.2.1 (hc.trans (by decide))
  obtain ⟨hbandUl, hsupported⟩ := bandOf_plain hplain.1 hband
  have hvalue : (r.chspec.getD 0 ≠ 0 ∧ Carries (r.chspec.getD 0) d) ↔ Returns r.chspec d := by
    cases hv : r.chspec with
    | none => exact ⟨fun h => absurd rfl h.1, fun h => absurd h not_returns_none⟩
    | some v =>
      have hne := (chspec_some_ne_zero hv)
      exact ⟨fun h => ⟨v, rfl, h.2⟩, fun ⟨_, heq, h⟩ => ⟨hne, Option.some.inj heq ▸ h⟩⟩
  rw [hvalue, Reading.Supported, hsupported, chspec_bandOf, hul, hbandUl, Option.bind_some]
  by_cases h : band = .g2 ∨ band = .g5
  · rw [if_pos h, tail_supported hplain.2.2 h hc hd]
    exact ⟨fun h => h.2, fun h' => ⟨h, h'⟩⟩
  · rw [if_neg h]
    exact ⟨fun h' => absurd h'.1 h, fun h' => absurd h' not_returns_none⟩

/-! ## The theorem -/

/-- **Text to chanspec, exactly.** The function does right by a string if and only if each way to
read it as a text of the grammar is supported, and, where there is none, it is not taken all the
same. -/
theorem text_correct_iff (s : List Char) : TextCorrect s ↔
    (∀ r : Reading, r.Written s → r.Plain → r.denotation.isSome → r.Supported) ∧
      ((∀ d, ¬Denotes s d) → ∀ r : Reading, r.Written s → ¬r.Taken) := by
  constructor
  · rintro ⟨hiff, hcarries⟩
    refine ⟨fun r hr hplain hsome => ?_, fun hnone r hr htaken => ?_⟩
    · obtain ⟨d, hd⟩ := Option.isSome_iff_exists.mp hsome
      have hdenotes : Denotes s d := ⟨r, hr, hplain, hd⟩
      have hne := hiff.mpr ⟨d, hdenotes⟩
      rw [reading_supported hplain hd, ← aton_written hr]
      exact ⟨hne, hcarries d hdenotes hne⟩
    · rw [← chspec_taken, ← aton_written hr] at htaken
      obtain ⟨d, hd⟩ := hiff.mp htaken
      exact hnone d hd
  · rintro ⟨hsupported, htaken⟩
    have hright : ∀ d, Denotes s d → wfChspecAton s ≠ 0 ∧ Carries (wfChspecAton s) d := by
      rintro d ⟨r, hr, hplain, hd⟩
      rw [aton_written hr]
      exact (reading_supported hplain hd).mp (hsupported r hr hplain (hd ▸ rfl))
    refine ⟨⟨fun hne => ?_, fun ⟨d, hd⟩ => (hright d hd).1⟩, fun d hd _ => (hright d hd).2⟩
    by_contra hnone
    obtain ⟨r, hr⟩ := written_of_aton hne
    rw [aton_written hr, chspec_taken] at hne
    exact htaken (fun d hd => hnone ⟨d, hd⟩) r hr hne

/-! ## From chanspec to text and back -/

/-- The upper octets of the chanspecs that are well formed: the sideband, the bandwidth and the
band. -/
def upperOctets : List Nat :=
  [16, 24, 25, 208, 216, 217, 224, 225, 226, 227, 232, 233, 234, 235, 236, 237, 238, 239]

theorem upper_of_formed :
    ∀ hi < 256, Formed 0 (hi % 8) (hi / 8 % 8) (hi / 64 % 4) → hi ∈ upperOctets := by
  unfold Formed
  decide +kernel

theorem upper_of_valid {c : Nat} (hc : c < 2 ^ 16) (h : wfChspecValid c = true) :
    c / 256 ∈ upperOctets := by
  have hm : wfChspecMalformed c = false := by
    apply eq_false_of_ne_true
    intro hm
    rw [wfChspecValid, if_pos hm] at h
    cases h
  obtain ⟨hband, hsb⟩ := (malformed_iff c).mp hm
  have hbw : field c 11 3 = c / 256 / 8 % 8 := by
    rw [Nat.div_div_eq_div_mul]
    rfl
  have hupper : field c 14 2 = c / 256 / 64 % 4 := by
    rw [Nat.div_div_eq_div_mul]
    rfl
  rw [hbw, hupper] at hband
  rw [hbw] at hsb
  apply upper_of_formed _ (by omega)
  exact ⟨hband.imp_right fun h => ⟨h.1, h.2.1, Nat.zero_le _⟩, hsb⟩

/-- The chanspecs with an upper octet are read back as they are written. -/
def ReadBack (hi : Nat) : Prop :=
  ∀ ch < 256, wfChspecValid (hi * 256 + ch) = true → ∀ format : Bool,
    (wfChspecNtoa format (hi * 256 + ch)).map wfChspecAton = some (hi * 256 + ch)

instance (hi : Nat) : Decidable (ReadBack hi) := by
  unfold ReadBack
  infer_instance

set_option maxRecDepth 100000 in
theorem readBack_narrow : ∀ hi ∈ upperOctets.take 6, ReadBack hi := by
  decide +kernel

set_option maxRecDepth 100000 in
theorem readBack_80 : ∀ hi ∈ (upperOctets.drop 6).take 4, ReadBack hi := by
  decide +kernel

set_option maxRecDepth 100000 in
theorem readBack_160 : ∀ hi ∈ (upperOctets.drop 6).drop 4, ReadBack hi := by
  decide +kernel

theorem readBack_of_mem {hi : Nat} (h : hi ∈ upperOctets) : ReadBack hi := by
  rw [← List.take_append_drop 6 upperOctets, List.mem_append] at h
  rcases h with h | h
  · exact readBack_narrow hi h
  · rw [← List.take_append_drop 4 (upperOctets.drop 6), List.mem_append] at h
    exact h.elim (readBack_80 hi) (readBack_160 hi)

/-- **Chanspecs and their text.** -/
theorem chanspec_text_iff (s : List Char) : (TextCorrect s ↔
    (∀ r : Reading, r.Written s → r.Plain → r.denotation.isSome → r.Supported) ∧
      ((∀ d, ¬Denotes s d) → ∀ r : Reading, r.Written s → ¬r.Taken)) ∧
    ∀ (format : Bool) (c : UInt16), wfChspecValid c.toNat = true →
      (wfChspecNtoa format c.toNat).map wfChspecAton = some c.toNat := by
  refine ⟨text_correct_iff s, fun format c h => ?_⟩
  have hc : c.toNat < 2 ^ 16 := c.toNat_lt
  have hsplit : c.toNat = c.toNat / 256 * 256 + c.toNat % 256 := by omega
  rw [hsplit] at h ⊢
  have hupper : c.toNat / 256 ∈ upperOctets := upper_of_valid hc (hsplit ▸ h)
  exact readBack_of_mem hupper _ (by omega) h format

def exampleText : List Char :=
  ['3', '6', '/', '8', '0', '+', '8', '0', '/', '4', '2', '-', '1', '0', '6']

/-- The numbers of the text. -/
def exampleReading : Reading where
  band := none
  channel := .ofDigits ['3', '6'] rfl (List.cons_ne_nil _ _)
  tail :=
    .pair (.ofDigits ['8', '0'] rfl (List.cons_ne_nil _ _))
      (.ofDigits ['4', '2'] rfl (List.cons_ne_nil _ _))
    (.ofDigits ['1', '0', '6'] rfl (List.cons_ne_nil _ _))
  spaces := 0

set_option maxRecDepth 100000 in
/-- The example of the source's own comment, `36/80+80/42-106`, is rejected. -/
theorem documented_example_rejected : ¬∀ s, TextCorrect s := by
  intro h
  have hdenotes : Denotes exampleText ⟨.g5, 36, .w8080, 42, some 106⟩ := by
    refine ⟨exampleReading, ⟨[], _, .omitted, .pair _ _ _, rfl⟩, ?_, by decide⟩
    refine ⟨fun _ hn => ?_, ⟨rfl, rfl⟩, ⟨rfl, rfl⟩, ⟨rfl, rfl⟩, rfl, rfl⟩
    cases hn
  have hzero : wfChspecAton exampleText = 0 := by decide +kernel
  exact (h exampleText).1.mpr ⟨_, hdenotes⟩ hzero

end BroadcomWl.Wlconf
