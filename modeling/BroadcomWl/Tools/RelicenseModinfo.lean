import BroadcomWl.Tools.Python

/-!
# Another license in `.modinfo`

`relicense-modinfo.py` has `objcopy` copy the section `.modinfo` out of an object, overwrites the
value of the first `license=` entry there, with NULs behind a shorter value, and has `objcopy` put
the section back. An entry is a string that ends with a NUL. What the script prints is left out.

**What it keeps.** `Rewritten`: the section stays as long as it is, the license entry becomes the
new one, and all the others stay where they are (`rewritten`).

**Texts and octets.** Whether there is something to write is decided by a comparison of texts. The
text of the old entry has U+FFFD for what is not UTF-8, so that two different entries may have one
text; in that case the old entry stays (`relicense_preserves_iff`). -/

namespace BroadcomWl.Tools.RelicenseModinfo

open BroadcomWl.Lib

/-! ## The code -/

/-- What the script says before it exits. -/
inductive Message where
  /-- `usage: relicense-modinfo.py <objcopy> <object> <license>` -/
  | usage
  /-- `'{lic}' is longer than '{old}'; cannot pad in place` -/
  | longer (lic : Bytes) (old : List Nat)

/-- The computations of the script that do not write. -/
abbrev Read := Except (PyError Message)

/-- `objcopy` on objects of some type. It may fail; then the object stays as it is. -/
structure Objcopy (Obj : Type) where
  /-- `--dump-section .modinfo=` -/
  dumpSection : Obj → Option Bytes
  /-- `--update-section .modinfo=` -/
  updateSection : Obj → Bytes → Option Obj
  dump_update : ∀ {o o' : Obj} {data : Bytes}, updateSection o data = some o' →
    dumpSection o' = some data

/-- `license=` -/
def licenseKey : Bytes := [0x6c, 0x69, 0x63, 0x65, 0x6e, 0x73, 0x65, 0x3d]

/-- The rewriting of an entry that stands at an offset; its text is returned too. -/
def rewrite (lic want data : Bytes) (i : Nat) (entry : Bytes) : Read (Option (List Nat × Bytes)) :=
  if entry.length < want.length then .error (.exit (.longer lic (decodeReplace entry)))
  else
    .ok (some (decodeReplace entry,
      setSlice data i (i + entry.length) (want ++ List.replicate (entry.length - want.length) 0)))

/-- The loop, from an offset on. -/
def patchLoop (lic want data : Bytes) (i : Nat) : Read (Option (List Nat × Bytes)) :=
  if _hi : i < data.length then
    match _h : find data [0] i with
    | none => .ok none
    | some j =>
      let entry := getSlice data i j
      if licenseKey <+: entry then rewrite lic want data i entry
      else patchLoop lic want data (j + 1)
  else .ok none
  termination_by data.length - i
  decreasing_by
    have hfound := find_some _h
    omega

variable {Obj : Type}

/-- `main` -/
def main (objcopy : Objcopy Obj) (argv : List Arg) : PyM Message Obj Unit :=
  match argv with
  | [_, _, _, lic] => do
    match objcopy.dumpSection (← get) with
    | none => throw .processError
    | some data =>
      let want := licenseKey ++ (← lift (encode lic))
      match ← lift (patchLoop lic.octets want data 0) with
      | none => pure ()
      | some (old, data') =>
        if old = decodeReplace want then pure ()
        else
          match objcopy.updateSection (← get) data' with
          | none => throw .processError
          | some o' => set o'
  | _ => throw (.exit .usage)

/-! ## The loop finds the first license -/

/-- The license entry: the first one that begins with `license=`. -/
structure FirstLicense (data : Bytes) (i : Nat) (e : Bytes) : Prop where
  entry : Entry data i e
  key : licenseKey <+: e
  first : ∀ k < i, ∀ f, Entry data k f → ¬licenseKey <+: f

/-- There is none. -/
def NoLicense (data : Bytes) : Prop := ∀ i e, Entry data i e → ¬licenseKey <+: e

section

variable {data lic want e f : Bytes} {i j : Nat}

theorem FirstLicense.unique (h : FirstLicense data i e) (h' : FirstLicense data j f) :
    i = j ∧ e = f := by
  have hij : i = j := by
    cases lt_trichotomy i j with
    | inl hlt => exact absurd h.key (h'.first i hlt e h.entry)
    | inr hge =>
        cases hge with
        | inl heq => exact heq
        | inr hgt => exact absurd h'.key (h.first j hgt f h'.entry)
  subst hij
  exact ⟨rfl, h.entry.unique h'.entry⟩

theorem entry_of_find (hstart : i = 0 ∨ data[i - 1]? = some 0) (h : find data [0] i = some j) :
    Entry data i (getSlice data i j) ∧ i + (getSlice data i j).length = j := by
  obtain ⟨hij, hj, hnul, hleft⟩ := find_some h
  have hlen : (getSlice data i j).length = j - i := by
    rw [getSlice, List.length_take_of_le]
    rw [List.length_drop]
    omega
  have hend : i + (getSlice data i j).length = j := by omega
  refine ⟨⟨List.take_prefix _ _, fun hmem => ?_, ?_, hstart⟩, hend⟩
  · obtain ⟨k, hk, hget⟩ := List.mem_iff_getElem.mp hmem
    apply hleft (i + k) (by omega) (by omega)
    rw [List.prefix_iff_getElem?]
    intro n hn
    obtain rfl : n = 0 := by
      rw [List.length_singleton] at hn
      omega
    rw [List.getElem?_drop, Nat.add_zero, List.getElem_singleton, ← hget, ← List.getElem?_drop,
      ← List.getElem?_take_of_lt (i := k) (j := j - i) (by omega)]
    exact List.getElem?_eq_getElem hk
  · rw [hend]
    obtain ⟨rest, hrest⟩ := hnul
    have hget : (data.drop j)[0]? = some 0 := by rw [← hrest]; rfl
    rwa [List.getElem?_drop, Nat.add_zero] at hget

theorem no_entry_between (h : Entry data i e) (h' : Entry data j f) (hj : i ≤ j)
    (hend : j ≤ i + e.length) :
    j = i := by
  by_contra hne
  have hapart := h.apart h' (by omega)
  omega

/-- **What the loop does**: it rewrites the first license, or there is none. -/
theorem patchLoop_spec (lic want data : Bytes) {start : Nat}
    (hstart : start = 0 ∨ data[start - 1]? = some 0)
    (hbefore : ∀ k < start, ∀ f, Entry data k f → ¬licenseKey <+: f) :
    (∃ i e, FirstLicense data i e ∧ patchLoop lic want data start = rewrite lic want data i e) ∨
      (NoLicense data ∧ patchLoop lic want data start = .ok none) := by
  fun_induction patchLoop lic want data start with
  | case1 start hlt hnone =>
      refine .inr ⟨fun i e hentry => ?_, rfl⟩
      by_cases hi : i < start
      · exact hbefore i hi e hentry
      · have hnul : [0] <+: data.drop (i + e.length) := by
          obtain ⟨hlt, hget⟩ := List.getElem?_eq_some_iff.mp hentry.ended
          rw [List.drop_eq_getElem_cons hlt, hget]
          exact ⟨_, rfl⟩
        exact absurd hnul (find_none hnone (i + e.length) (by omega) hentry.length_lt.le)
  | case2 start hlt j hfind entry hkey =>
      obtain ⟨hentry, -⟩ := entry_of_find hstart hfind
      exact .inl ⟨start, entry, ⟨hentry, hkey, hbefore⟩, rfl⟩
  | case3 start hlt j hfind entry hkey ih =>
      obtain ⟨hentry, hend⟩ := entry_of_find hstart hfind
      apply ih
      · refine .inr ?_
        rw [Nat.add_sub_cancel, ← hend]
        exact hentry.ended
      · intro k hk f hf
        by_cases hlt : k < start
        · exact hbefore k hlt f hf
        · have heq := no_entry_between hentry hf (by omega) (by omega)
          subst heq
          exact (hentry.unique hf) ▸ hkey
  | case4 start hge =>
      refine .inr ⟨fun i e hentry => ?_, rfl⟩
      have hlt := hentry.length_lt
      exact hbefore i (by omega) e hentry

theorem patchLoop_first (lic want : Bytes) (h : FirstLicense data i e) :
    patchLoop lic want data 0 = rewrite lic want data i e := by
  cases patchLoop_spec lic want data (.inl rfl) (fun k hk => absurd hk (Nat.not_lt_zero k)) with
  | inl hfound =>
      obtain ⟨j, f, hfirst, hloop⟩ := hfound
      obtain ⟨rfl, rfl⟩ := h.unique hfirst
      exact hloop
  | inr hnone => exact absurd h.key (hnone.1 i e h.entry)

end

/-! ## What is kept -/

/-- `out` is `data` with the license entry overwritten. -/
structure Rewritten (want data out : Bytes) : Prop where
  length : out.length = data.length
  /-- The other entries stay where they are. -/
  others : ∀ i e, Entry data i e → ¬FirstLicense data i e → Entry out i e
  /-- The license entry is the new one, with NULs up to the end of the old one. -/
  license : ∀ i e, FirstLicense data i e →
    FirstLicense out i want ∧ ∀ k, i + want.length ≤ k → k ≤ i + e.length → out[k]? = some 0
  /-- Nothing is written but the license entry. -/
  outside : ∀ k, (∀ i e, FirstLicense data i e → ¬(i ≤ k ∧ k < i + e.length)) → out[k]? = data[k]?

section

variable {data want e : Bytes} {i : Nat}

theorem rewritten_none (h : NoLicense data) : Rewritten want data data where
  length := rfl
  others := fun _ _ hentry _ => hentry
  license := fun i e hfirst => absurd hfirst.key (h i e hfirst.entry)
  outside := fun _ _ => rfl

theorem rewritten_same (h : FirstLicense data i want) : Rewritten want data data where
  length := rfl
  others := fun _ _ hentry _ => hentry
  license := by
    intro j f hfirst
    obtain ⟨rfl, rfl⟩ := h.unique hfirst
    refine ⟨h, fun k hk hk' => ?_⟩
    obtain rfl : k = i + want.length := by omega
    exact h.entry.ended
  outside := fun _ _ => rfl

/-- **The new section.** -/
theorem rewritten (h : FirstLicense data i e) (hwant : 0 ∉ want) (hkey : licenseKey <+: want)
    (hle : want.length ≤ e.length) :
    Rewritten want data
      (setSlice data i (i + e.length) (want ++ List.replicate (e.length - want.length) 0)) := by
  have hend := h.entry.length_lt
  have hnew : (want ++ List.replicate (e.length - want.length) 0).length = i + e.length - i := by
    rw [List.length_append, List.length_replicate]
    omega
  have hi : i ≤ i + e.length := Nat.le_add_right _ _
  have hout := fun k hk => setSlice_outside hi hend.le hnew (k := k) hk
  have hin := fun k hk => setSlice_inside hi hend.le hnew (k := k) hk
  have hother : ∀ j f, Entry data j f → ¬FirstLicense data j f → j ≠ i := by
    intro j f hf hnot hji
    subst hji
    exact hnot (h.entry.unique hf ▸ h)
  -- the octet behind the old entry is a NUL, and so are those of the padding
  have hpad : ∀ k, i + want.length ≤ k → k ≤ i + e.length →
      (setSlice data i (i + e.length) (want ++ List.replicate (e.length - want.length) 0))[k]? =
          some 0 := by
    intro k hk hk'
    by_cases hlast : k = i + e.length
    · rw [hlast, hout _ (by omega), h.entry.ended]
    · obtain ⟨n, rfl⟩ := Nat.exists_eq_add_of_le (show i ≤ k by omega)
      rw [hin n (by omega), List.getElem?_append_right (by omega), List.getElem?_replicate,
        if_pos (by omega)]
  have hentry :
      Entry (setSlice data i (i + e.length) (want ++ List.replicate (e.length - want.length) 0)) i
      want := by
    refine ⟨?_, hwant, hpad _ le_rfl (by omega), ?_⟩
    · rw [List.prefix_iff_getElem?]
      intro k hk
      rw [List.getElem?_drop, hin k (by omega), List.getElem?_append_left hk,
        List.getElem?_eq_getElem hk]
    · cases h.entry.begins with
      | inl hzero => exact .inl hzero
      | inr hnul =>
          by_cases hzero : i = 0
          · exact .inl hzero
          · exact .inr (by rw [hout _ (by omega), hnul])
  refine ⟨setSlice_length hi hend.le hnew, fun j f hf hnot => ?_, fun j f hf => ?_, fun k hk => ?_⟩
  · apply hf.congr fun k hk hk' => hout k fun hinside => ?_
    have hji := hother j f hf hnot
    cases Nat.lt_or_gt_of_ne hji with
    | inl hlt =>
        have hapart := hf.apart h.entry hlt
        omega
    | inr hgt =>
        have hapart := h.entry.apart hf hgt
        omega
  · obtain ⟨rfl, rfl⟩ := h.unique hf
    refine ⟨⟨hentry, hkey, fun k hk g hg => ?_⟩, hpad⟩
    -- an entry before the license was there before
    have hapart := hg.apart hentry hk
    exact h.first k hk g (hg.congr fun n _ hn => (hout n (by omega)).symm)
  · exact hout k (hk i e h)

end

/-! ## The whole script -/

section

variable {objcopy : Objcopy Obj} {o o' : Obj} {prog p q lic : Arg} {data e : Bytes} {i : Nat}

/-- The new entry. -/
def want (lic : Arg) : Bytes := licenseKey ++ lic.octets

theorem want_noNul (lic : Arg) : 0 ∉ want lic := by
  intro hmem
  cases List.mem_append.mp hmem with
  | inl hkey => exact absurd hkey (by decide)
  | inr hlic => exact lic.noNul hlic

/-- What happens behind the loop. -/
def settle (objcopy : Objcopy Obj) (lic : Arg) (o : Obj) :
    Read (Option (List Nat × Bytes)) → EStateM.Result (PyError Message) Obj Unit
  | .error e => .error e o
  | .ok none => .ok () o
  | .ok (some (old, data')) =>
    if old = decodeReplace (want lic) then .ok () o
    else
      match objcopy.updateSection o data' with
      | none => .error .processError o
      | some o' => .ok () o'

theorem main_run (hlic : utf8 lic.octets = true) (hdump : objcopy.dumpSection o = some data) :
    main objcopy [prog, p, q, lic] o =
      settle objcopy lic o (patchLoop lic.octets (want lic) data 0) := by
  have henc : encode (M := Message) lic = .ok lic.octets := if_pos hlic
  rw [want, main]
  change EStateM.bind _ _ _ = _
  simp only [EStateM.bind, get, getThe, MonadStateOf.get, EStateM.get, hdump, henc, lift, pure_bind]
  cases patchLoop lic.octets (licenseKey ++ lic.octets) data 0 with
  | error e => rfl
  | ok result =>
      cases result with
      | none => rfl
      | some found =>
          simp only [pure_bind, settle, want]
          by_cases hold : found.1 = decodeReplace (licenseKey ++ lic.octets)
          · rw [if_pos hold]
            exact (if_pos hold).symm
          · rw [if_neg hold]
            refine Eq.trans ?_ (if_neg hold).symm
            change EStateM.bind _ _ _ = _
            simp only [EStateM.bind, EStateM.get]
            cases objcopy.updateSection o found.2 <;> rfl

theorem main_first (hlic : utf8 lic.octets = true) (hdump : objcopy.dumpSection o = some data)
    (h : FirstLicense data i e) (hle : (want lic).length ≤ e.length) :
    main objcopy [prog, p, q, lic] o =
      settle objcopy lic o (.ok (some (decodeReplace e,
        setSlice data i (i + e.length)
          (want lic ++ List.replicate (e.length - (want lic).length) 0)))) := by
  rw [main_run hlic hdump, patchLoop_first _ _ h, rewrite, if_neg (Nat.not_lt.mpr hle)]

theorem main_again (hlic : utf8 lic.octets = true) (hdump : objcopy.dumpSection o = some data)
    (h : FirstLicense data i (want lic)) : main objcopy [prog, p, q, lic] o = .ok () o := by
  rw [main_first hlic hdump h le_rfl, settle, if_pos rfl]

end

/-- The script keeps the section of an object but for its license entry, and on its own output it
changes nothing. -/
structure Preserves (objcopy : Objcopy Obj) (argv : List Arg) (o o' : Obj) : Prop where
  kept : ∃ prog p q lic data out, argv = [prog, p, q, lic] ∧ objcopy.dumpSection o = some data ∧
    objcopy.dumpSection o' = some out ∧ Rewritten (want lic) data out
  again : main objcopy argv o' = .ok () o'

/-- The license entry is another one than the new one, but has its text. -/
structure Confused (data : Bytes) (lic : Arg) : Prop where
  utf8 : utf8 lic.octets = true
  entry : ∃ i e, FirstLicense data i e ∧ (want lic).length ≤ e.length ∧ e ≠ want lic ∧
    decodeReplace e = decodeReplace (want lic)

section

variable {objcopy : Objcopy Obj} {argv : List Arg} {o o' : Obj} {prog p q lic : Arg} {data : Bytes}

/-- **The license stays as it is** in that case. -/
theorem confused_kept (prog p q : Arg) (hdump : objcopy.dumpSection o = some data)
    (h : Confused data lic) :
    main objcopy [prog, p, q, lic] o = .ok () o ∧ ¬Preserves objcopy [prog, p, q, lic] o o := by
  obtain ⟨hlic, i, e, hfirst, hle, hne, htext⟩ := h
  refine ⟨?_, fun hpres => ?_⟩
  · rw [main_first hlic hdump hfirst hle, settle, if_pos htext]
  · obtain ⟨prog', p', q', lic', data', out, hargv, hdata, hout, hrewritten⟩ := hpres.kept
    cases hargv
    rw [hdump] at hdata hout
    cases hdata
    cases hout
    exact hne (hfirst.entry.unique (hrewritten.license i e hfirst).1.entry)

/-- **What the script does otherwise.** -/
theorem main_preserves (hdump : objcopy.dumpSection o = some data) (hlic : utf8 lic.octets = true)
    (h : ¬Confused data lic) :
    wp (main objcopy [prog, p, q, lic]) (fun _ o' => Preserves objcopy [prog, p, q, lic] o o')
      (fun _ o' => o' = o) o := by
  rw [wp, main_run hlic hdump]
  cases patchLoop_spec lic.octets (want lic) data (.inl rfl)
      (fun k hk => absurd hk (Nat.not_lt_zero k)) with
  | inr hnone =>
      have hrun : main objcopy [prog, p, q, lic] o = .ok () o := by
        rw [main_run hlic hdump, hnone.2, settle]
      rw [hnone.2]
      exact ⟨⟨prog, p, q, lic, data, data, rfl, hdump, hdump, rewritten_none hnone.1⟩, hrun⟩
  | inl hfound =>
      obtain ⟨i, e, hfirst, hloop⟩ := hfound
      rw [hloop, rewrite]
      by_cases hlong : e.length < (want lic).length
      · rw [if_pos hlong]
        rfl
      have hle := Nat.not_lt.mp hlong
      rw [if_neg hlong, settle]
      by_cases htext : decodeReplace e = decodeReplace (want lic)
      · -- the same text is the same entry here
        obtain rfl : e = want lic := by
          by_contra hne
          exact h ⟨hlic, i, e, hfirst, hle, hne, htext⟩
        rw [if_pos rfl]
        exact ⟨⟨prog, p, q, lic, data, data, rfl, hdump, hdump, rewritten_same hfirst⟩,
          main_again hlic hdump hfirst⟩
      · rw [if_neg htext]
        have hnew := rewritten hfirst (want_noNul lic) (List.prefix_append _ _) hle
        split
        · rename_i hupdate
          split at hupdate
          · cases hupdate
          · rename_i o₁ hsome
            cases hupdate
            have hout := objcopy.dump_update hsome
            exact ⟨⟨prog, p, q, lic, data, _, rfl, hdump, hout, hnew⟩,
              main_again hlic hout (hnew.license i e hfirst).1⟩
        · rename_i hupdate
          split at hupdate
          · cases hupdate
            rfl
          · cases hupdate

/-- **When the script does what it is for**: the entries other than the license stay where they are,
the license becomes the new one, and the second run changes nothing, unless the license is another
one with the same text. -/
theorem relicense_preserves_iff (objcopy : Objcopy Obj) (argv : List Arg) (o : Obj) :
    wp (main objcopy argv) (fun _ o' => Preserves objcopy argv o o') (fun _ o' => o' = o) o ↔
      ∀ prog p q lic data, argv = [prog, p, q, lic] → objcopy.dumpSection o = some data →
      ¬Confused data lic := by
  refine ⟨fun hwp prog p q lic data hargv hdump hconf => ?_, fun h => ?_⟩
  · subst hargv
    obtain ⟨hrun, hnot⟩ := confused_kept prog p q hdump hconf
    rw [wp, hrun] at hwp
    exact hnot hwp
  · by_cases hargv : ∃ prog p q lic, argv = [prog, p, q, lic]
    · obtain ⟨prog, p, q, lic, rfl⟩ := hargv
      cases hdump : objcopy.dumpSection o with
      | none => simp [main, hdump]
      | some data =>
          by_cases hlic : utf8 lic.octets = true
          · exact main_preserves hdump hlic (h prog p q lic data rfl hdump)
          · have henc : encode (M := Message) lic = .error .unicodeError := if_neg hlic
            simp [main, hdump, henc]
    · unfold main
      split
      · rename_i prog p q lic
        exact absurd ⟨prog, p, q, lic, rfl⟩ hargv
      · exact rfl

end

/-! ## Two entries with one text -/

/-- The section is the whole object. -/
def sectionOnly : Objcopy Bytes := ⟨some, fun _ data => some data, Eq.symm⟩

/-- `license=` and the first three octets of a character of four. -/
def truncatedLicense : Bytes := licenseKey ++ [0xf0, 0x9f, 0x98, 0]

/-- U+FFFD -/
def replacement : Arg := ⟨[0xef, 0xbf, 0xbd], by decide⟩

theorem truncatedLicense_confused : Confused truncatedLicense replacement := by
  refine ⟨by decide, 0, licenseKey ++ [0xf0, 0x9f, 0x98],
    ⟨⟨?_, by decide, by decide, .inl rfl⟩, ?_, ?_⟩, ?_, ?_, ?_⟩
  · decide
  · decide
  · exact fun k hk => absurd hk (Nat.not_lt_zero k)
  · decide
  · decide
  · decide

/-- **The license stays the old one.** -/
theorem license_not_replaced :
    ¬wp (main sectionOnly [replacement, replacement, replacement, replacement])
        (fun _ o' =>
          Preserves sectionOnly [replacement, replacement, replacement, replacement]
          truncatedLicense o')
        (fun _ o' => o' = truncatedLicense) truncatedLicense := by
  have hdump : sectionOnly.dumpSection truncatedLicense = some truncatedLicense := rfl
  obtain ⟨hrun, hnot⟩ :=
    confused_kept replacement replacement replacement hdump truncatedLicense_confused
  rw [wp, hrun]
  exact hnot

end BroadcomWl.Tools.RelicenseModinfo
