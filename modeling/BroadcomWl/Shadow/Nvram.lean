import BroadcomWl.Lib.CString

/-!
# The NVRAM shim

`wl_shadow_nvram.c` keeps a copy of the NVRAM of the running kernel. It is a sequence of entries
`name=value`, each ended by a NUL, and the copy has one NUL behind it. `nvram_get` answers with an
address inside the copy.

**Lookup.** An entry is what stands between two NULs, its name what stands before its first `=`.
`lookup` is the value of the first entry of a name. The loop of `nvram_get` compares the name and
the octet behind it only, so it takes `a=b` for the name of `a=b=c` (`nvramScan_eq`).

**Termination.** The copy ends with an empty entry if and only if the NVRAM does: one NUL more makes
two only where there was one. `nvram_lookup_iff` gathers when all is as it should be. -/

namespace BroadcomWl.Shadow.Nvram

open BroadcomWl.Lib

abbrev Bytes := List UInt8

/-- `=`. -/
def equals : UInt8 := 61

/-! ## The code -/

/-- `wl_nvram_buf` and `wl_nvram_len`, once they are set. -/
structure Buf where
  octets : Bytes
  len : Nat
  len_pos : 0 < len
  octets_length : octets.length = len + 1
  terminated : octets[len]? = some 0

/-- What the kernel answers when it is asked. -/
structure Env where
  /-- `bcm47xx_nvram_get_contents`, or `none` for NULL -/
  contents : Option Bytes
  /-- whether `kzalloc` has memory -/
  memory : Bool

def enodev : Int := 19
def enomem : Int := 12

/-- The copy of a text that is not empty. -/
def Buf.copy (text : Bytes) (h : text ≠ []) : Buf where
  octets := text ++ [0]
  len := text.length
  len_pos := List.length_pos_of_ne_nil h
  octets_length := List.length_append
  terminated := by rw [List.getElem?_append_right le_rfl, Nat.sub_self]; rfl

/-- `wl_nvram_load`. -/
def wlNvramLoad (env : Env) (st : Option Buf) : Int × Option Buf :=
  match st with
  | some b => (0, some b)
  | none =>
    match env.contents with
    | none => (-enodev, none)
    | some src =>
      if h : src ≠ [] then if env.memory then (0, some (Buf.copy src h)) else (-enomem, none)
      else (-enodev, none)

/-- The body of the loop of `nvram_get`: whether the entry at an offset is taken. -/
def nvramMatches (octets name : Bytes) (nlen p : Nat) : Option Bool := do
  let c ← octets[p]?
  if c = 0 then some false else
    let same ← strncmpEq nlen (octets.drop p) name
    if same then octets[p + nlen]?.map (· == equals) else some false

/-- The loop from an offset on; a null result is `some none`. It is `none` if it reads behind the
octets, or if it goes on after so many entries. -/
def nvramScan (octets : Bytes) (len : Nat) (name : Bytes) (nlen : Nat) :
    Nat → Nat → Option (Option Nat)
  | 0, p => if p < len then none else some none
  | fuel + 1, p =>
    if p < len then do
      let found ← nvramMatches octets name nlen p
      if found then some (some (p + nlen + 1)) else
        let l ← strlen (octets.drop p)
        nvramScan octets len name nlen fuel (p + l + 1)
    else some none

/-- The octets of a string before its NUL. -/
structure CString where
  octets : Bytes
  noNul : 0 ∉ octets

/-- The string at an address. -/
def CString.ofMem (mem : Bytes) : CString := ⟨cString mem, nul_not_mem_cString mem⟩

/-- `nvram_get`; the answer is an offset in the buffer. -/
def nvramGet (env : Env) (st : Option Buf) (name : Option CString) :
    Option (Option Nat × Option Buf) :=
  match name with
  | none => some (none, st)
  | some name =>
    match wlNvramLoad env st with
    | (0, some b) => do
      let nlen ← strlen (name.octets ++ [0])
      let r ← nvramScan b.octets b.len (name.octets ++ [0]) nlen b.len 0
      some (r, some b)
    | (_, st) => some (none, st)

/-- `nvram_getall`: what it returns, and the caller's octets. -/
def nvramGetall (env : Env) (st : Option Buf) (buf : Bytes) (count : Int) :
    Int × Bytes × Option Buf :=
  match wlNvramLoad env st with
  | (0, some b) =>
    if count < 0 ∨ count < b.len + 1 then (-1, buf, some b)
    else (0, b.octets.take b.len ++ 0 :: buf.drop (b.len + 1), some b)
  | (_, st) => (-1, buf, st)

/-! ## What is looked up -/

/-- The entries of a text. -/
def entries (text : Bytes) : List Bytes := text.splitOn 0

/-- The name of an entry that has one. -/
def entryName (e : Bytes) : Option Bytes :=
  if equals ∈ e then some (e.takeWhile (· ≠ equals)) else none

def entryValue (e : Bytes) : Bytes := (e.dropWhile (· ≠ equals)).drop 1

/-- **The value of the first entry of a name.** -/
def lookup (text name : Bytes) : Option Bytes :=
  ((entries text).find? fun e => decide (entryName e = some name)).map entryValue

/-- What the loop takes for an entry of a name. -/
def Begins (name e : Bytes) : Prop := name ++ [equals] <+: e

instance (name e : Bytes) : Decidable (Begins name e) :=
  inferInstanceAs (Decidable (_ <+: _))

/-- What the loop finds. -/
def firstBeginning (text name : Bytes) : Option Bytes :=
  ((entries text).find? fun e => decide (Begins name e)).map fun e => e.drop (name.length + 1)

/-- The octets end with an empty entry. -/
def DoubleNul (octets : Bytes) : Prop := [0, 0] <:+ octets

instance (octets : Bytes) : Decidable (DoubleNul octets) :=
  inferInstanceAs (Decidable (_ <:+ _))

/-! ## The loop -/

section

variable {octets name e behind : Bytes} {len fuel p : Nat}

theorem getElem?_of_drop {i : Nat} (h : octets.drop p = e) : octets[p + i]? = e[i]? := by
  rw [← h, List.getElem?_drop]

theorem nvramMatches_eq (hname : 0 ∉ name) (he : 0 ∉ e) (h : octets.drop p = e ++ 0 :: behind) :
    nvramMatches octets (name ++ [0]) name.length p = some (decide (Begins name e)) := by
  have hfirst : octets[p]? = (e ++ 0 :: behind)[0]? := by
    rw [← getElem?_of_drop h, Nat.add_zero]
  have hsame := strncmpEq_append behind he hname
  unfold nvramMatches
  rw [hfirst, h]
  cases e with
  | nil => simp [Begins]
  | cons c e =>
      have hc : c ≠ 0 := by
        intro hc
        simp [hc] at he
      have hfound : (c :: e ++ 0 :: behind)[0]? = some c := rfl
      by_cases hprefix : name <+: c :: e
      · obtain ⟨t, ht⟩ := hprefix
        have hnext : octets[p + name.length]? = (t ++ 0 :: behind)[0]? := by
          rw [getElem?_of_drop h, ← ht, List.append_assoc, List.getElem?_append_right le_rfl,
            Nat.sub_self]
        have hbegins : Begins name (c :: e) ↔ [equals] <+: t := by
          rw [Begins, ← ht, List.prefix_append_right_inj]
        have hcompared : ((t ++ 0 :: behind)[0]?.map (· == equals)) =
            some (decide ([equals] <+: t)) := by
          cases t with
          | nil => rfl
          | cons d t => simp [List.cons_prefix_cons, eq_comm, beq_eq_decide]
        have hprefix : name <+: c :: e := ⟨t, ht⟩
        simp only [hfound, Option.bind_eq_bind, Option.bind_some, if_neg hc, hsame, hprefix,
          decide_true, if_true, hnext, hcompared, hbegins]
      · have hnot : ¬Begins name (c :: e) := by
          intro hbegins
          exact hprefix ((List.prefix_append name [equals]).trans hbegins)
        simp only [hfound, Option.bind_eq_bind, Option.bind_some, if_neg hc, hsame, hprefix, hnot,
          decide_false, Bool.false_eq_true, if_false]

/-- **One entry.** -/
theorem nvramScan_step (hname : 0 ∉ name) (he : 0 ∉ e) (h : octets.drop p = e ++ 0 :: behind)
    (hp : p < len) :
    nvramScan octets len (name ++ [0]) name.length (fuel + 1) p =
      if Begins name e then some (some (p + name.length + 1))
      else nvramScan octets len (name ++ [0]) name.length fuel (p + e.length + 1) := by
  have hstrlen : strlen (octets.drop p) = some e.length := by
    rw [h, strlen_append he]
  rw [nvramScan, if_pos hp, nvramMatches_eq hname he h]
  by_cases hbegins : Begins name e
  · simp [hbegins]
  · simp [hbegins, hstrlen]

theorem nvramScan_end (hp : len ≤ p) :
    nvramScan octets len (name ++ [0]) name.length fuel p = some none := by
  cases fuel with
  | zero => rw [nvramScan, if_neg (by omega)]
  | succ fuel => rw [nvramScan, if_neg (by omega)]

theorem exists_entry (rest behind : Bytes) :
    ∃ e after, 0 ∉ e ∧ rest ++ 0 :: behind = e ++ 0 :: after ∧
      (rest = e ∨ ∃ rest', rest = e ++ 0 :: rest' ∧ after = rest' ++ 0 :: behind) := by
  by_cases hnul : 0 ∈ rest
  · obtain ⟨e, rest', heq, he⟩ := List.eq_append_cons_of_mem hnul
    exact ⟨e, rest' ++ 0 :: behind, he, by simp [heq], .inr ⟨rest', heq, rfl⟩⟩
  · exact ⟨rest, behind, hnul, rfl, .inl rfl⟩

theorem entries_of_not_mem (he : 0 ∉ e) : entries e = [e] := List.splitOn_eq_singleton he

theorem entries_append (he : 0 ∉ e) (rest : Bytes) : entries (e ++ 0 :: rest) = e :: entries rest :=
  List.splitOn_append_cons_self_of_not_mem he rest

theorem find?_entry {rest : Bytes} {tail : List Bytes} (hentries : entries rest = e :: tail) :
    firstBeginning rest name = if Begins name e then some (e.drop (name.length + 1))
      else (tail.find? fun e => decide (Begins name e)).map fun e => e.drop (name.length + 1) := by
  rw [firstBeginning, hentries, List.find?_cons]
  by_cases hbegins : Begins name e
  · simp [hbegins]
  · simp [hbegins]

theorem cString_of_begins (he : 0 ∉ e) (h : octets.drop p = e ++ 0 :: behind)
    (hbegins : Begins name e) :
    cString (octets.drop (p + name.length + 1)) = e.drop (name.length + 1) := by
  have hle := hbegins.length_le
  rw [List.length_append, List.length_singleton] at hle
  rw [Nat.add_assoc, ← List.drop_drop, h, List.drop_append_of_le_length hle,
    cString_append fun hmem => he (List.mem_of_mem_drop hmem)]

/-- The answer is what there is to find in a text, and lies in the buffer. -/
def Finds (octets name : Bytes) (len : Nat) (text : Bytes) (answer : Option (Option Nat)) : Prop :=
  ∃ r, answer = some r ∧ r.map (fun q => cString (octets.drop q)) = firstBeginning text name ∧
    ∀ q ∈ r, q ≤ len

theorem finds_none (he : 0 ∉ e) (hnot : ¬Begins name e) : Finds octets name len e (some none) := by
  refine ⟨none, rfl, ?_, fun q hq => (by cases hq)⟩
  rw [find?_entry (entries_of_not_mem he), if_neg hnot]
  rfl

theorem finds_entry {rest : Bytes} {tail : List Bytes} (hentries : entries rest = e :: tail)
    (he : 0 ∉ e) (h : octets.drop p = e ++ 0 :: behind) (hbegins : Begins name e)
    (hlen : p + e.length ≤ len) :
    Finds octets name len rest (some (some (p + name.length + 1))) := by
  refine ⟨some (p + name.length + 1), rfl, ?_, ?_⟩
  · rw [Option.map_some, cString_of_begins he h hbegins, find?_entry hentries, if_pos hbegins]
  · intro q hq
    have hle := hbegins.length_le
    rw [List.length_append, List.length_singleton] at hle
    cases hq
    omega

/-- **The loop finds what it is looking for**, in a text that is followed by a NUL, whatever comes
then. -/
theorem nvramScan_eq {rest : Bytes} (hname : 0 ∉ name) (h : octets.drop p = rest ++ 0 :: behind)
    (hlen : p + rest.length = len) (hfuel : rest.length ≤ fuel) :
    Finds octets name len rest (nvramScan octets len (name ++ [0]) name.length fuel p) := by
  induction fuel generalizing p rest behind with
  | zero =>
      rw [nvramScan_end (by omega), List.eq_nil_of_length_eq_zero (Nat.le_zero.mp hfuel)]
      exact finds_none (by simp) (by simp [Begins])
  | succ fuel ih =>
      by_cases hp : len ≤ p
      · rw [nvramScan_end hp, List.eq_nil_of_length_eq_zero (show rest.length = 0 by omega)]
        exact finds_none (by simp) (by simp [Begins])
      · obtain ⟨e, after, he, hafter, hcase⟩ := exists_entry rest behind
        rw [hafter] at h
        rw [nvramScan_step hname he h (by omega)]
        cases hcase with
        | inl hlast =>
            subst hlast
            split
            · rename_i hbegins
              exact finds_entry (entries_of_not_mem he) he h hbegins hlen.le
            · rename_i hnot
              rw [nvramScan_end (by omega)]
              exact finds_none he hnot
        | inr hmore =>
            obtain ⟨rest', hrest, hbehind⟩ := hmore
            have hlength := congrArg List.length hrest
            rw [List.length_append, List.length_cons] at hlength
            have hentries := entries_append he rest'
            rw [← hrest] at hentries
            split
            · rename_i hbegins
              exact finds_entry hentries he h hbegins (by omega)
            · rename_i hnot
              have hnext : octets.drop (p + e.length + 1) = rest' ++ 0 :: behind := by
                rw [Nat.add_assoc, ← List.drop_drop, h, hbehind]
                simp
              have htail := ih hnext (by omega) (by omega)
              rwa [Finds, find?_entry hentries, if_neg hnot, ← firstBeginning, ← Finds]

/-! ## The names for which this is the lookup -/

theorem takeWhile_equals (hequals : equals ∉ name) (t : Bytes) :
    (name ++ equals :: t).takeWhile (· ≠ equals) = name := by
  have hne : ∀ c ∈ name, decide (c ≠ equals) = true :=
    fun c hc => decide_eq_true fun h0 => hequals (h0 ▸ hc)
  rw [List.takeWhile_append_of_pos hne]
  simp

theorem entryName_eq_some :
    entryName e = some name ↔ equals ∉ name ∧ ∃ t, e = name ++ equals :: t := by
  unfold entryName
  constructor
  · intro h
    split at h
    · rename_i hmem
      obtain ⟨s, t, rfl, hs⟩ := List.eq_append_cons_of_mem hmem
      rw [takeWhile_equals hs, Option.some.injEq] at h
      subst h
      exact ⟨hs, t, rfl⟩
    · cases h
  · intro h
    obtain ⟨hequals, t, rfl⟩ := h
    rw [if_pos (by simp), takeWhile_equals hequals]

/-- The loop takes an entry for one of a name without `=` just where it is one. -/
theorem begins_iff (hequals : equals ∉ name) : Begins name e ↔ entryName e = some name := by
  rw [entryName_eq_some, Begins]
  constructor
  · intro h
    obtain ⟨t, rfl⟩ := h
    exact ⟨hequals, t, by simp⟩
  · intro h
    obtain ⟨-, t, rfl⟩ := h
    exact ⟨t, by simp⟩

theorem entryValue_of_begins (hequals : equals ∉ name) (h : Begins name e) :
    entryValue e = e.drop (name.length + 1) := by
  obtain ⟨t, rfl⟩ := h
  have hne : ∀ c ∈ name, decide (c ≠ equals) = true :=
    fun c hc => decide_eq_true fun h0 => hequals (h0 ▸ hc)
  rw [entryValue, List.append_assoc, List.dropWhile_append_of_pos hne]
  simp

theorem firstBeginning_eq_lookup (hequals : equals ∉ name) (text : Bytes) :
    firstBeginning text name = lookup text name := by
  have hpred : (fun e => decide (Begins name e)) = fun e => decide (entryName e = some name) := by
    funext e
    exact decide_eq_decide.mpr (begins_iff hequals)
  rw [firstBeginning, lookup, ← hpred]
  refine Option.map_congr fun e he => ?_
  have hfound := List.find?_some (p := fun e => decide (Begins name e)) he
  have hbegins : Begins name e := of_decide_eq_true hfound
  exact (entryValue_of_begins hequals hbegins).symm

theorem lookup_of_mem (hequals : equals ∈ name) (text : Bytes) : lookup text name = none := by
  rw [lookup, Option.map_eq_none_iff, List.find?_eq_none]
  intro e _ hname
  exact (entryName_eq_some.mp (of_decide_eq_true hname)).1 hequals

/-- **When the loop does the lookup.** -/
theorem firstBeginning_eq_lookup_iff (text : Bytes) :
    firstBeginning text name = lookup text name ↔ equals ∉ name ∨ ∀ e ∈ entries text,
      ¬Begins name e := by
  by_cases hequals : equals ∈ name
  · rw [lookup_of_mem hequals, firstBeginning, Option.map_eq_none_iff, List.find?_eq_none]
    simp [hequals]
  · simp [hequals, firstBeginning_eq_lookup hequals]

end

/-! ## The buffer and its copies -/

/-- The NVRAM that was copied. -/
def Buf.text (b : Buf) : Bytes := b.octets.take b.len

theorem Buf.octets_eq (b : Buf) : b.octets = b.text ++ [0] := by
  obtain ⟨hlt, hlast⟩ := List.getElem?_eq_some_iff.mp b.terminated
  have hdrop : b.octets.drop b.len = [0] := by
    rw [List.drop_eq_getElem_cons hlt, hlast, List.drop_eq_nil_of_le b.octets_length.le]
  rw [Buf.text, ← hdrop, List.take_append_drop]

@[simp] theorem Buf.text_length (b : Buf) : b.text.length = b.len := by
  rw [Buf.text, List.length_take, b.octets_length]
  omega

@[simp] theorem Buf.copy_text (text : Bytes) (h : text ≠ []) : (Buf.copy text h).text = text := by
  simp [Buf.text, Buf.copy]

theorem doubleNul_append (text : Bytes) : DoubleNul (text ++ [0]) ↔ [0] <:+ text :=
  @List.suffix_append_self_iff _ [0] text [0]

/-- The string that the loop of `nvram_get` finds in octets. -/
def search (octets : Bytes) (len : Nat) (name : CString) : Option (Option Bytes) :=
  (nvramScan octets len (name.octets ++ [0]) name.octets.length len 0).map
    (·.map fun q => cString (octets.drop q))

/-- What the shim promises of a buffer `b`: the answer to a name, the octets of the
buffer, and those that a caller gets. -/
structure AsSpecified (env : Env) (st : Option Buf) (b : Buf) (name : CString) (buf : Bytes)
    (count : Int) : Prop where
  get : ∃ r, nvramGet env st (some name) = some (r, some b) ∧
    r.map (fun q => cString (b.octets.drop q)) = lookup b.text name.octets ∧ ∀ q ∈ r, q ≤ b.len
  buffer : DoubleNul b.octets
  getall : (nvramGetall env st buf count).1 = 0 →
    DoubleNul ((nvramGetall env st buf count).2.1.take (b.len + 1)) ∧
      ∀ name' : CString, search (nvramGetall env st buf count).2.1 b.len name' =
        search b.octets b.len name'

theorem finds_in_copy (b : Buf) (behind : Bytes) (name : CString) :
    Finds (b.text ++ 0 :: behind) name.octets b.len b.text
      (nvramScan (b.text ++ 0 :: behind) b.len (name.octets ++ [0]) name.octets.length b.len 0) :=
  nvramScan_eq name.noNul rfl (by simp) (by simp)

theorem search_eq (b : Buf) (behind : Bytes) (name : CString) :
    search (b.text ++ 0 :: behind) b.len name = some (firstBeginning b.text name.octets) := by
  obtain ⟨r, hr, hvalue, -⟩ := finds_in_copy b behind name
  rw [search, hr, Option.map_some, hvalue]

theorem nvramGet_eq {env : Env} {st : Option Buf} {b : Buf} (h : wlNvramLoad env st = (0, some b))
    (name : CString) :
    ∃ r, nvramGet env st (some name) = some (r, some b) ∧
      r.map (fun q => cString (b.octets.drop q)) = firstBeginning b.text name.octets ∧
      ∀ q ∈ r, q ≤ b.len := by
  have hfinds := finds_in_copy b [] name
  rw [← b.octets_eq] at hfinds
  obtain ⟨r, hr, hvalue⟩ := hfinds
  refine ⟨r, ?_, hvalue⟩
  simp only [nvramGet, h, strlen_append name.noNul, Option.bind_eq_bind, Option.bind_some, hr]

theorem nvramGetall_eq {env : Env} {st : Option Buf} {b : Buf}
    (h : wlNvramLoad env st = (0, some b)) {buf : Bytes} {count : Int}
    (hret : (nvramGetall env st buf count).1 = 0) :
    (nvramGetall env st buf count).2.1 = b.text ++ 0 :: buf.drop (b.len + 1) := by
  simp only [nvramGetall, h] at hret ⊢
  split
  · rename_i hcount
    rw [if_pos hcount] at hret
    cases hret
  · rfl

/-- **When the shim is as it should be.** -/
theorem nvram_lookup_iff {env : Env} {st : Option Buf} {b : Buf}
    (h : wlNvramLoad env st = (0, some b)) (name : CString) (buf : Bytes) (count : Int) :
    AsSpecified env st b name buf count ↔
      (equals ∉ name.octets ∨ ∀ e ∈ entries b.text, ¬Begins name.octets e) ∧ [0] <:+ b.text := by
  obtain ⟨r, hget, hvalue, hle⟩ := nvramGet_eq h name
  rw [← firstBeginning_eq_lookup_iff, ← doubleNul_append, ← b.octets_eq]
  constructor
  · intro hspec
    obtain ⟨r', hget', hvalue', -⟩ := hspec.get
    rw [hget, Option.some.injEq, Prod.mk.injEq] at hget'
    rw [← hget'.1, hvalue] at hvalue'
    exact ⟨hvalue', hspec.buffer⟩
  · intro hcond
    refine ⟨⟨r, hget, hvalue.trans hcond.1, hle⟩, hcond.2, fun hret => ?_⟩
    have htake : (b.text ++ 0 :: buf.drop (b.len + 1)).take (b.len + 1) = b.octets := by
      rw [b.octets_eq, List.take_append, b.text_length, List.take_of_length_le (by simp)]
      simp
    rw [nvramGetall_eq h hret, htake]
    refine ⟨hcond.2, fun name' => ?_⟩
    have hcopy := search_eq b [] name'
    rw [← b.octets_eq] at hcopy
    rw [hcopy, search_eq]

theorem nvramGet_unloaded {env : Env} {st st' : Option Buf} {err : Int}
    (h : wlNvramLoad env st = (err, st')) (herr : err ≠ 0) (name : Option CString) (buf : Bytes)
    (count : Int) :
    (nvramGet env st name).map Prod.fst = some none ∧ (nvramGetall env st buf count).1 = -1 ∧
      (nvramGetall env st buf count).2.1 = buf := by
  refine ⟨?_, ?_⟩
  · cases name with
    | none => rfl
    | some name =>
        simp only [nvramGet, h]
        split
        · rename_i heq
          exact absurd (Prod.mk.inj heq).1 herr
        · rfl
  · simp only [nvramGetall, h]
    split
    · rename_i heq
      exact absurd (Prod.mk.inj heq).1 herr
    · exact ⟨rfl, rfl⟩

/-- The entry `a=b`, well terminated. -/
theorem nvram_lookup_iff_entry :
    AsSpecified ⟨some [97, equals, 98, 0], true⟩ none
      (Buf.copy [97, equals, 98, 0] (List.cons_ne_nil _ _))
      (CString.ofMem [97]) [] 0 :=
  (nvram_lookup_iff rfl _ _ _).mpr ⟨.inl (by decide), by decide⟩

/-- With the NVRAM `a=b=c` there is one NUL at the end of the buffer, and `nvram_get` takes `a=b`
for a name. -/
theorem name_with_equals_found :
    let text : Bytes := [97, equals, 98, equals, 99]
    let b := Buf.copy text (List.cons_ne_nil _ _)
    let name := CString.ofMem [97, equals, 98]
    nvramGet ⟨some text, true⟩ none (some name) = some (some 4, some b) ∧
      lookup b.text name.octets = none ∧
      ¬DoubleNul b.octets ∧ ¬AsSpecified ⟨some text, true⟩ none b name [] 0 := by
  have hend : ¬DoubleNul [97, equals, 98, equals, 99, 0] := by decide
  exact ⟨rfl, rfl, hend, fun hspec => hend hspec.buffer⟩

end BroadcomWl.Shadow.Nvram
