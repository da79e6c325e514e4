import BroadcomWl.Lib.Memory
import BroadcomWl.Wlconf.Shared

/-!
# Lists of addresses

`wlconf` puts the addresses of `maclist` into a buffer for the driver, and `wlconf_start` those of
`wds` into a smaller one. A buffer begins with the count, of four octets; here the count is kept
apart, and the memory holds the addresses.

**The lists.** `accessLoop_spec` says that the loop of `wlconf` puts in the addresses among the
words, as many as there is room for. That of `wlconf_start` counts every word and looks whether a
slot begins behind the buffer (`wdsLoop_spec`). `mac_lists_iff` says for which strings both are
right. -/

namespace BroadcomWl.Wlconf

open BroadcomWl.Lib.Memory

/-- Octets by their addresses. -/
abbrev Mem := Nat → UInt8

/-! ## The code -/

/-- `WLC_IOCTL_SMLEN` -/
def wlcIoctlSmlen : Nat := 256

/-- The count of a `struct maclist`, the pointer `ea`, and the memory. -/
structure MacList where
  count : Nat
  ea : Nat
  mem : Mem

/-- An address for the next slot. -/
def MacList.add (s : MacList) (a : EtherAddr) : MacList :=
  ⟨s.count + 1, s.ea + 6, store s.mem s.ea a⟩

@[simp] theorem MacList.add_count (s : MacList) (a : EtherAddr) :
    (s.add a).count = s.count + 1 := rfl
@[simp] theorem MacList.add_ea (s : MacList) (a : EtherAddr) : (s.add a).ea = s.ea + 6 := rfl
@[simp] theorem MacList.add_mem (s : MacList) (a : EtherAddr) :
    (s.add a).mem = store s.mem s.ea a := rfl

/-- Before the loop. -/
def MacList.empty (buf : Nat) (mem : Mem) : MacList := ⟨0, buf + 4, mem⟩

/-- The loop of `wlconf` over the words of `maclist`. -/
def accessLoop (S : Shared) (bufEnd : Nat) : List (List Char) → MacList → MacList
  | [], s => s
  | word :: words, s =>
    if bufEnd < s.ea + 6 then s
    else
      let (ok, a) := S.etherAtoe word (load s.mem s.ea)
      if ok then accessLoop S bufEnd words (s.add a)
      else accessLoop S bufEnd words { s with mem := store s.mem s.ea a }

/-- The loop of `wlconf_start` over the words of `wds`. -/
def wdsLoop (S : Shared) (bufEnd : Nat) : List (List Char) → MacList → MacList
  | [], s => s
  | word :: words, s =>
    if bufEnd < s.ea then s
    else wdsLoop S bufEnd words (s.add (S.etherAtoe word (load s.mem s.ea)).2)

/-- The size of the buffer of `wlconf`. -/
def accessSize : Nat := wlcIoctlSmlen * 2

/-- The size of the buffer of `wlconf_start`. -/
def wdsSize : Nat := wlcIoctlSmlen

/-- The list that `wlconf` makes of `maclist` where `macmode` is not `disabled`. -/
def accessList (S : Shared) (maclist : List Char) (buf : Nat) (mem : Mem) : MacList :=
  accessLoop S (buf + accessSize) (S.foreach maclist) (.empty buf mem)

/-- The list that `wlconf_start` makes of `wds`. -/
def wdsList (S : Shared) (wds : List Char) (buf : Nat) (mem : Mem) : MacList :=
  wdsLoop S (buf + wdsSize) (S.foreach wds) (.empty buf mem)

/-! ## The loops -/

section

variable {S : Shared} {bufEnd : Nat} {words : List (List Char)} {s : MacList}

/-- How many addresses fit. -/
def room (bufEnd ea : Nat) : Nat := (bufEnd - ea) / 6

/-- What a loop has put at `ea` and behind. -/
structure Filled (s : MacList) (n bufEnd : Nat) (as : List EtherAddr) (s' : MacList) : Prop where
  count : s'.count = s.count + n
  list : loads s'.mem s.ea n = as
  outside : ∀ x, ¬(s.ea ≤ x ∧ x < bufEnd) → s'.mem x = s.mem x

theorem Filled.none (s : MacList) (bufEnd : Nat) : Filled s 0 bufEnd [] s :=
  ⟨rfl, rfl, fun _ _ => rfl⟩

theorem Filled.add {n : Nat} {a : EtherAddr} {as : List EtherAddr} {s' : MacList}
    (hroom : s.ea + 6 ≤ bufEnd) (h : Filled (s.add a) n bufEnd as s') :
    Filled s (n + 1) bufEnd (a :: as) s' := by
  refine ⟨?_, ?_, fun x hx => ?_⟩
  · rw [h.count, MacList.add_count]
    omega
  · have hfirst : (load s'.mem s.ea : EtherAddr) = a := by
      rw [← load_store (m := s.mem) (a := s.ea) (f := a)]
      exact load_congr fun i hi => h.outside _ (by rw [MacList.add_ea]; omega)
    rw [loads, hfirst]
    exact congrArg (a :: ·) h.list
  · rw [h.outside x (by rw [MacList.add_ea]; omega)]
    exact store_apply_of_not (by omega)

/-- **The loop of `wlconf`.** -/
theorem accessLoop_spec (S : Shared) (bufEnd : Nat) (words : List (List Char)) (s : MacList) :
    Filled s ((words.filterMap S.parse).take (room bufEnd s.ea)).length bufEnd
      ((words.filterMap S.parse).take (room bufEnd s.ea)) (accessLoop S bufEnd words s) := by
  induction words generalizing s with
  | nil =>
      rw [List.filterMap_nil, List.take_nil]
      exact .none s bufEnd
  | cons word words ih =>
      rw [accessLoop]
      by_cases hfull : bufEnd < s.ea + 6
      · have hroom : room bufEnd s.ea = 0 := Nat.div_eq_of_lt (by omega)
        rw [if_pos hfull, hroom, List.take_zero]
        exact .none s bufEnd
      · rw [if_neg hfull]
        cases hword : S.parse word with
        | none =>
            rw [List.filterMap_cons_none hword]
            simp only [Shared.etherAtoe, hword, Bool.false_eq_true, if_false]
            have hrest := ih { s with mem := store s.mem s.ea (S.left word (load s.mem s.ea)) }
            refine ⟨hrest.count, hrest.list, fun x hx => ?_⟩
            rw [hrest.outside x hx]
            exact store_apply_of_not (by omega)
        | some a =>
            have hroom : room bufEnd s.ea = room bufEnd (s.ea + 6) + 1 := by
              unfold room
              omega
            rw [List.filterMap_cons_some hword, hroom, List.take_succ_cons, List.length_cons]
            simp only [Shared.etherAtoe, hword, if_true]
            exact .add (by omega) (ih (s.add a))

/-- **The loop of `wlconf_start`** counts every word, up to one more than there is room for. -/
theorem wdsLoop_count (S : Shared) (bufEnd : Nat) (words : List (List Char)) (s : MacList)
    (hea : s.ea ≤ bufEnd) :
    (wdsLoop S bufEnd words s).count = s.count + min words.length (room bufEnd s.ea + 1) := by
  induction words generalizing s with
  | nil => simp [wdsLoop]
  | cons word words ih =>
      rw [wdsLoop, if_neg (by omega), List.length_cons]
      by_cases hlast : s.ea + 6 ≤ bufEnd
      · rw [ih _ hlast, room, room, MacList.add_count, MacList.add_ea]
        omega
      · have hstop : wdsLoop S bufEnd words (s.add (S.etherAtoe word (load s.mem s.ea)).2) =
            s.add (S.etherAtoe word (load s.mem s.ea)).2 := by
          cases words with
          | nil => rfl
          | cons w ws => rw [wdsLoop, if_pos (by rw [MacList.add_ea]; omega)]
        rw [hstop, room, MacList.add_count]
        omega

/-- Where every word is an address and there is room for all of them, the loops are one. -/
theorem wdsLoop_eq (hparse : ∀ w ∈ words, (S.parse w).isSome)
    (hroom : words.length ≤ room bufEnd s.ea) :
    wdsLoop S bufEnd words s = accessLoop S bufEnd words s := by
  induction words generalizing s with
  | nil => rfl
  | cons word words ih =>
      rw [List.forall_mem_cons] at hparse
      rw [List.length_cons] at hroom
      have hfit : s.ea + 6 ≤ bufEnd := by
        unfold room at hroom
        omega
      obtain ⟨a, ha⟩ := Option.isSome_iff_exists.mp hparse.1
      have hrest : words.length ≤ room bufEnd (s.add a).ea := by
        unfold room at *
        rw [MacList.add_ea]
        omega
      rw [wdsLoop, accessLoop, if_neg (by omega), if_neg (by omega)]
      simp only [Shared.etherAtoe, ha, if_true]
      exact ih hparse.2 hrest

end

/-! ## The lists -/

/-- The addresses in a string, as many as fit into a buffer behind the count. -/
def addresses (S : Shared) (str : List Char) (size : Nat) : List EtherAddr :=
  ((S.foreach str).filterMap S.parse).take ((size - 4) / 6)

/-- The list is that of the addresses, and no octet behind the buffer has changed. -/
structure Exact (S : Shared) (str : List Char) (size buf : Nat) (mem : Mem) (s : MacList) :
    Prop where
  count : s.count = (addresses S str size).length
  list : loads s.mem (buf + 4) s.count = addresses S str size
  outside : ∀ x, ¬(buf ≤ x ∧ x < buf + size) → s.mem x = mem x

/-- Two buffers hold the same list. -/
def SameList (buf : Nat) (s : MacList) (buf' : Nat) (s' : MacList) : Prop :=
  s.count = s'.count ∧ (loads s.mem (buf + 4) s.count : List EtherAddr) =
    loads s'.mem (buf' + 4) s'.count

section

variable (S : Shared) (str : List Char)

theorem room_buf (size buf : Nat) : room (buf + size) (buf + 4) = (size - 4) / 6 := by
  unfold room
  congr 1
  omega

theorem exact_accessLoop (size buf : Nat) (mem : Mem) :
    Exact S str size buf mem (accessLoop S (buf + size) (S.foreach str) (.empty buf mem)) := by
  have hfilled := accessLoop_spec S (buf + size) (S.foreach str) (.empty buf mem)
  rw [MacList.empty, room_buf] at hfilled
  obtain ⟨hcount, hlist, houtside⟩ := hfilled
  rw [Nat.zero_add] at hcount
  refine ⟨hcount, ?_, fun x hx => houtside x (by simp only; omega)⟩
  rw [MacList.empty, hcount]
  exact hlist

theorem wdsList_count (buf : Nat) (mem : Mem) :
    (wdsList S str buf mem).count = min (S.foreach str).length 43 := by
  rw [wdsList, wdsLoop_count S _ _ _ (by simp only [MacList.empty, wdsSize, wlcIoctlSmlen]; omega),
    MacList.empty, room_buf, Nat.zero_add]
  rfl

/-- **Both lists.** That of `wlconf` is always the list of the addresses. That of `wlconf_start` is,
and is the same, if and only if every word is an address and there are at most 42 of them. -/
theorem mac_lists_iff (buf : Nat) (mem : Mem) (buf' : Nat) (mem' : Mem) :
    Exact S str accessSize buf mem (accessList S str buf mem) ∧
      (Exact S str wdsSize buf' mem' (wdsList S str buf' mem') ∧
          SameList buf (accessList S str buf mem) buf' (wdsList S str buf' mem') ↔
        (∀ w ∈ S.foreach str, (S.parse w).isSome) ∧ (S.foreach str).length ≤ 42) := by
  have haccess : Exact S str accessSize buf mem (accessList S str buf mem) :=
    exact_accessLoop S str accessSize buf mem
  have hcount := wdsList_count S str buf' mem'
  refine ⟨haccess, fun ⟨hwds, _⟩ => ?_, fun ⟨hparse, hlength⟩ => ?_⟩
  · -- the count says how many words there are
    have hwords : min (S.foreach str).length 43 =
        min 42 ((S.foreach str).filterMap S.parse).length := by
      rw [← hcount, hwds.count, addresses, List.length_take]
      rfl
    have hle := List.length_filterMap_le S.parse (S.foreach str)
    refine ⟨List.filterMap_length_eq_length.mp (by omega), by omega⟩
  · have hloop : wdsList S str buf' mem' =
        accessLoop S (buf' + wdsSize) (S.foreach str) (.empty buf' mem') := by
      refine wdsLoop_eq hparse ?_
      rw [MacList.empty, room_buf]
      exact hlength
    have hwds : Exact S str wdsSize buf' mem' (wdsList S str buf' mem') := by
      rw [hloop]
      exact exact_accessLoop S str wdsSize buf' mem'
    have hall (size : Nat) (hsize : 256 ≤ size) :
        addresses S str size = (S.foreach str).filterMap S.parse := by
      have hle := List.length_filterMap_le S.parse (S.foreach str)
      exact List.take_of_length_le (by omega)
    have hsame : addresses S str accessSize = addresses S str wdsSize := by
      rw [hall accessSize (by decide), hall wdsSize (by decide)]
    refine ⟨hwds, ?_, ?_⟩
    · rw [haccess.count, hwds.count, hsame]
    · rw [haccess.list, hwds.list, hsame]

end

/-- A word that is no address, and 43 addresses. -/
theorem wds_list_wrong :
    ¬Exact Shared.colons "x".toList wdsSize 0 (fun _ => 0)
      (wdsList Shared.colons "x".toList 0 fun _ => 0) ∧
      ¬Exact Shared.colons (List.replicate 43 "00:90:4C:00:00:10 ".toList).flatten wdsSize 0
        (fun _ => 0) (wdsList Shared.colons
          (List.replicate 43 "00:90:4C:00:00:10 ".toList).flatten 0 fun _ => 0) := by
  constructor
  · intro h
    have hcount := h.count
    revert hcount
    decide +kernel
  · intro h
    have houtside := h.outside 257 (by decide)
    revert houtside
    decide +kernel

end BroadcomWl.Wlconf
