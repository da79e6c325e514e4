import BroadcomWl.Tools.Python

/-!
# Renaming an entry of `.dynstr`

`rename-needed.py` overwrites one string of the section `.dynstr` of an ELF file by another one of
the same length. It finds the section through the table of the section headers, and in it all whole
strings that are the old name; unless there is exactly one it gives up.

**`rename_edits`.** The script either writes a file that differs from the old one in the octets of
that string only, or it fails and writes nothing. A string is whole if a NUL is behind it and a NUL,
or the beginning of the section, before it. -/

namespace BroadcomWl.Tools.RenameNeeded

open BroadcomWl.Lib

/-! ## The code -/

/-- What the script says before it exits. -/
inductive Message where
  /-- `usage: rename-needed.py <in> <out> <old-soname> <new-soname>` -/
  | usage
  /-- `names must be the same length (%r is %d, %r is %d) - the point of this tool is that nothing
  moves` -/
  | lengths (old : Bytes) (oldLen : Nat) (new : Bytes) (newLen : Nat)
  /-- `not a 32-bit little-endian ELF` -/
  | notElf
  /-- `no .dynstr` -/
  | noDynstr
  /-- `expected exactly one whole-string %r in .dynstr, found %d` -/
  | found (old : Bytes) (n : Nat)
  deriving DecidableEq

/-- The computations of the script that do not write. -/
abbrev Read := Except (PyError Message)

/-- The file that has been written: its name and its octets. -/
abbrev Written := Option (Bytes × Bytes)

/-- A section: its name, its offset and its size. -/
abbrev Section := Bytes × Nat × Nat

def elfMagic : Bytes := [0x7f, 0x45, 0x4c, 0x46]

def dynstr : Bytes := [0x2e, 0x64, 0x79, 0x6e, 0x73, 0x74, 0x72]

/-- `name_of`, for the offset of the table of names. -/
def nameOf (data : Bytes) (shstrOff idx : Nat) : Read Bytes :=
  let s := shstrOff + idx
  match find data [0] s with
  | none => .error .valueError
  | some j => decode (getSlice data s j)

/-- `sections`. -/
def sections (data : Bytes) : Read (List Section) := do
  if getSlice data 0 4 ≠ elfMagic then throw (.exit .notElf)
  if (← index data 4) ≠ 1 then throw (.exit .notElf)
  if (← index data 5) ≠ 1 then throw (.exit .notElf)
  let shoff := (← unpackFrom [4] data 0x20).getD 0 0
  let header ← unpackFrom [2, 2, 2] data 0x2e
  let shentsize := header.getD 0 0
  let shnum := header.getD 1 0
  let shstrndx := header.getD 2 0
  let out ← (List.range shnum).mapM fun i => do
    let f ← unpackFrom [4, 4, 4, 4, 4, 4] data (shoff + i * shentsize)
    return (f.getD 0 0, f.getD 4 0, f.getD 5 0)
  let shstrOff := (← index out shstrndx).2.1
  out.mapM fun (n, o, s) => do return (← nameOf data shstrOff n, o, s)

/-- The section of a name in the dictionary, where the last one of a name stays. -/
def lookup (secs : List Section) (name : Bytes) : Option (Nat × Nat) :=
  (secs.reverse.find? fun s => decide (s.1 = name)).map Prod.snd

/-- The condition for a hit. -/
def isHit (blob old : Bytes) (i : Nat) : Read Bool :=
  (if i = 0 then .ok true else isNul blob (i - 1)) >>= fun before =>
    if before then isNul blob (i + old.length) else .ok false

/-- The loop, from an offset on. -/
def findHits (blob old : Bytes) (start : Nat) (hits : List Nat) : Read (List Nat) :=
  match _h : find blob old start with
  | none => .ok hits
  | some i => do
    let hit ← isHit blob old i
    findHits blob old (i + 1) (if hit then hits ++ [i] else hits)
  termination_by blob.length + 1 - start
  decreasing_by
    have hfound := find_some _h
    omega

/-- `main`; `files` says what there is to read, and `writable` what can be opened for writing. -/
def main (files : Bytes → Option Bytes) (writable : Bytes → Bool) (argv : List Arg) :
    PyM Message Written Unit :=
  match argv with
  | [_, src, dst, old, new] => do
    let oldB ← lift (encode old)
    let newB ← lift (encode new)
    if newB.length ≠ oldB.length then throw (.exit (.lengths oldB oldB.length newB newB.length))
    match files src.octets with
    | none => throw .osError
    | some data =>
      let secs ← lift (sections data)
      match lookup secs dynstr with
      | none => throw (.exit .noDynstr)
      | some (off, size) =>
        let blob := getSlice data off (off + size)
        let hits ← lift (findHits blob oldB 0 [])
        match hits with
        | [hit] =>
          let at' := off + hit
          if writable dst.octets
            then set (some (dst.octets, setSlice data at' (at' + newB.length) newB))
          else throw .osError
        | hits => throw (.exit (.found oldB hits.length))
  | _ => throw (.exit .usage)

/-! ## The hits are whole strings -/

/-- The octets of a section. -/
def contents (data : Bytes) (off size : Nat) : Bytes := getSlice data off (off + size)

section

variable {blob old : Bytes} {start i : Nat}

theorem isHit_true (h : isHit blob old i = .ok true) (hnul : 0 ∉ old)
    (hfound : old <+: blob.drop i) :
    Entry blob i old := by
  obtain ⟨before, hbefore, hend⟩ := bind_ok h
  cases before with
  | false => cases hend
  | true =>
      refine ⟨hfound, hnul, isNul_true hend, ?_⟩
      by_cases hzero : i = 0
      · exact .inl hzero
      · rw [if_neg hzero] at hbefore
        exact .inr (isNul_true hbefore)

/-- **The hits are whole strings.** -/
theorem findHits_entries (hnul : 0 ∉ old) {hits hits' : List Nat}
    (hold : ∀ i ∈ hits, Entry blob i old) (h : findHits blob old start hits = .ok hits') :
    ∀ i ∈ hits', Entry blob i old := by
  fun_induction findHits blob old start hits with
  | case1 start hits hnone =>
      cases h
      exact hold
  | case2 start hits i hfound ih =>
      obtain ⟨hit, hhit, hrest⟩ := bind_ok h
      refine ih hit ?_ hrest
      cases hit with
      | false => exact hold
      | true =>
          intro j hj
          cases List.mem_append.mp hj with
          | inl hj => exact hold j hj
          | inr hj => exact List.mem_singleton.mp hj ▸ isHit_true hhit hnul (find_some hfound).2.2.1

end

/-! ## What is written -/

/-- `out` is `data` with one whole string of a section overwritten, which stands at an offset in the
section. -/
structure Edited (data out : Bytes) (off size i : Nat) (old new : Bytes) : Prop where
  length : out.length = data.length
  names : new.length = old.length
  was : Entry (contents data off size) i old
  now : Entry (contents out off size) i new
  outside : ∀ k, ¬(off + i ≤ k ∧ k < off + i + old.length) → out[k]? = data[k]?

theorem contents_getElem? (data : Bytes) (off : Nat) {size k : Nat} (hk : k < size) :
    (contents data off size)[k]? = data[off + k]? := by
  rw [contents, getSlice, Nat.add_sub_cancel_left, List.getElem?_take_of_lt hk, List.getElem?_drop]

theorem contents_length (data : Bytes) (off size : Nat) :
    (contents data off size).length ≤ size := by
  rw [contents, getSlice, Nat.add_sub_cancel_left, List.length_take]
  exact Nat.min_le_left _ _

/-- **The edit changes one string.** -/
theorem edited {data old new : Bytes} {off size i : Nat} (h : Entry (contents data off size) i old)
    (hlen : new.length = old.length) (hnew : 0 ∉ new) :
    Edited data (setSlice data (off + i) (off + i + new.length) new) off size i old new := by
  have hsize := contents_length data off size
  have hblob := h.length_lt
  have hend : off + i + old.length < data.length := by
    have hended := h.ended
    rw [contents_getElem? data off (by omega)] at hended
    have hlt := (List.getElem?_eq_some_iff.mp hended).1
    omega
  have hj : off + i + new.length ≤ data.length := by omega
  have hsub : new.length = off + i + new.length - (off + i) := (Nat.add_sub_cancel_left _ _).symm
  have hout := fun k hk => setSlice_outside (Nat.le_add_right _ _) hj hsub (k := k) hk
  refine ⟨setSlice_length (Nat.le_add_right _ _) hj hsub, hlen, h, ⟨?_, hnew, ?_, ?_⟩,
    fun k hk => ?_⟩
  · rw [List.prefix_iff_getElem?]
    intro k hk
    rw [List.getElem?_drop, contents_getElem? _ _ (by omega), ← Nat.add_assoc,
      setSlice_inside (Nat.le_add_right _ _) hj hsub (by omega), List.getElem?_eq_getElem hk]
  · have hended := h.ended
    rw [contents_getElem? data off (by omega)] at hended
    rw [contents_getElem? _ _ (by omega), hout _ (by omega), hlen, hended]
  · cases h.begins with
    | inl hzero => exact .inl hzero
    | inr hnul =>
        by_cases hzero : i = 0
        · exact .inl hzero
        · rw [contents_getElem? data off (by omega)] at hnul
          refine .inr ?_
          rw [contents_getElem? _ _ (by omega), hout _ (by omega), hnul]
  · exact hout k (by omega)

/-- What the script may do: write the edited file, for the section that it takes for `.dynstr`. -/
def Writes (files : Bytes → Option Bytes) (argv : List Arg) (st : Written) : Prop :=
  ∃ prog src dst old new data secs off size i out,
    argv = [prog, src, dst, old, new] ∧ files src.octets = some data ∧ sections data = .ok secs ∧
      lookup secs dynstr = some (off, size) ∧ Edited data out off size i old.octets new.octets ∧
      st = some (dst.octets, out)

/-- **The script edits nothing else**: it writes the edited file, or it fails and has written
nothing. -/
theorem rename_edits (files : Bytes → Option Bytes) (writable : Bytes → Bool) (argv : List Arg) :
    wp (main files writable argv) (fun _ st => Writes files argv st) (fun _ st => st = none)
      none := by
  unfold main
  split
  · rename_i prog src dst old new
    simp only [wp_bind, wp_lift, wp_ite, wp_throw, implies_true, and_true, true_and]
    intro oldB hold newB hnew hlen
    obtain rfl := encode_ok hold
    obtain rfl := encode_ok hnew
    cases hsrc : files src.octets with
    | none => exact rfl
    | some data =>
        simp only [wp_bind, wp_lift, implies_true, and_true]
        intro secs hsecs
        cases hdynstr : lookup secs dynstr with
        | none => exact rfl
        | some section' =>
            obtain ⟨off, size⟩ := section'
            simp only [wp_bind, wp_lift, implies_true, and_true]
            intro hits hhits
            have hentries :=
              findHits_entries old.noNul (fun i hi => absurd hi List.not_mem_nil) hhits
            split
            · rename_i hit
              rw [wp_ite]
              refine ⟨fun _ => ?_, fun _ => rfl⟩
              exact ⟨prog, src, dst, old, new, data, secs, off, size, hit, _, rfl, hsrc,
                hsecs, hdynstr,
                edited (hentries hit (List.mem_singleton_self hit)) (not_not.mp hlen) new.noNul,
                rfl⟩
            · exact rfl
  · exact rfl

theorem main_writes {files : Bytes → Option Bytes} {writable : Bytes → Bool} {data : Bytes}
    (prog src dst old new : Arg) {secs : List Section} {off size hit : Nat} {st : Written}
    (hold : utf8 old.octets = true) (hnew : utf8 new.octets = true)
    (hlen : new.octets.length = old.octets.length) (hsrc : files src.octets = some data)
    (hsecs : sections data = .ok secs) (hdynstr : lookup secs dynstr = some (off, size))
    (hhits : findHits (contents data off size) old.octets 0 [] = .ok [hit])
    (hdst : writable dst.octets = true) :
    main files writable [prog, src, dst, old, new] st =
      .ok () (some (dst.octets,
        setSlice data (off + hit) (off + hit + new.octets.length) new.octets)) := by
  have holdB : encode (M := Message) old = .ok old.octets := if_pos hold
  have hnewB : encode (M := Message) new = .ok new.octets := if_pos hnew
  rw [contents] at hhits
  simp only [main, holdB, hnewB, lift, pure_bind, ne_eq, hlen, not_true_eq_false, if_false, hsrc,
    hsecs, hdynstr, hhits, hdst, if_true]
  rfl

/-! ## The beginning of the section -/

/-- The string of a section between two NULs. -/
def Delimited (blob : Bytes) (i : Nat) (e : Bytes) : Prop := Entry blob i e ∧ 0 < i

/-- A file with two sections: `.dynstr`, which begins with `a`, behind an octet that is no NUL, and
the names of the sections. -/
def startsWithName : Bytes :=
  [0x7f, 0x45, 0x4c, 0x46, 1, 1] ++ List.replicate 26 0 ++ [63, 0, 0, 0] ++ List.replicate 10 0 ++
    [24, 0, 2, 0, 1, 0] ++ dynstr ++ [0, 1, 0x61, 0] ++
    ([0, 0, 0, 0] ++ List.replicate 12 0 ++ [61, 0, 0, 0, 2, 0, 0, 0]) ++
    ([7, 0, 0, 0] ++ List.replicate 12 0 ++ [52, 0, 0, 0, 8, 0, 0, 0])

/-- An argument of one octet. -/
def oneOctet (c : UInt8) (h : c ≠ 0) : Arg := ⟨[c], by simpa using h.symm⟩

theorem sections_startsWithName :
    sections startsWithName = .ok [(dynstr, 61, 2), ([], 52, 8)] := by
  decide +kernel

theorem findHits_startsWithName :
    findHits (contents startsWithName 61 2) [0x61] 0 [] = .ok [0] := by
  have hfirst : find (contents startsWithName 61 2) [0x61] 0 = some 0 := by decide +kernel
  have hsecond : find (contents startsWithName 61 2) [0x61] 1 = none := by decide +kernel
  have hhit : isHit (contents startsWithName 61 2) [0x61] 0 = .ok true := by decide +kernel
  rw [findHits]
  split
  · rename_i hnone
    rw [hfirst] at hnone
    cases hnone
  · rename_i i hsome
    rw [hfirst] at hsome
    cases hsome
    rw [hhit]
    change findHits _ _ 1 [0] = _
    rw [findHits]
    split
    · rfl
    · rename_i j hsome
      rw [hsecond] at hsome
      cases hsome

/-- **A name at the beginning of the section** is overwritten too, although there is no NUL before
it. -/
theorem name_at_beginning :
    lookup [(dynstr, 61, 2), ([], 52, 8)] dynstr = some (61, 2) ∧
      sections startsWithName = .ok [(dynstr, 61, 2), ([], 52, 8)] ∧
      (∀ i, ¬Delimited (contents startsWithName 61 2) i [0x61]) ∧
      main (fun _ => some startsWithName) (fun _ => true)
          [oneOctet 1 (by decide), oneOctet 2 (by decide), oneOctet 3 (by decide),
            oneOctet 0x61 (by decide), oneOctet 0x62 (by decide)] none =
        .ok () (some ([3], setSlice startsWithName (61 + 0) (61 + 0 + 1) [0x62])) ∧
      setSlice startsWithName (61 + 0) (61 + 0 + 1) [0x62] ≠ startsWithName := by
  refine ⟨by decide, sections_startsWithName, ?_, ?_, by decide⟩
  · rintro i ⟨hentry, hpos⟩
    have hlt := hentry.length_lt
    have hlen : (contents startsWithName 61 2).length = 2 := by decide
    rw [hlen, List.length_singleton] at hlt
    omega
  · have hold : utf8 [0x61] = true := by decide
    have hnew : utf8 [0x62] = true := by decide
    have hdynstr : lookup [(dynstr, 61, 2), ([], 52, 8)] dynstr = some (61, 2) := by decide
    exact main_writes (oneOctet 1 _) (oneOctet 2 _) (oneOctet 3 _) (oneOctet 0x61 _)
      (oneOctet 0x62 _) hold hnew rfl rfl
      sections_startsWithName hdynstr findHits_startsWithName rfl

end BroadcomWl.Tools.RenameNeeded
