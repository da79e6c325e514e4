import Mathlib

/-!
# What wlconf uses of libshared

The words of a string and the text of an Ethernet address. Both are parameters: `foreach` cuts a
string into words, `ether_atoe` reads an address and leaves something in the octets it is given
where there is none, and `ether_etoa` writes a text that `ether_atoe` reads. -/

namespace BroadcomWl.Wlconf

/-- `struct ether_addr` -/
abbrev EtherAddr := Fin 6 → UInt8

/-- The functions of libshared. -/
structure Shared where
  foreach : List Char → List (List Char)
  parse : List Char → Option EtherAddr
  /-- what is left in the octets where there is no address -/
  left : List Char → EtherAddr → EtherAddr
  etherEtoa : EtherAddr → List Char
  parse_etherEtoa : ∀ a, parse (etherEtoa a) = some a

/-- `ether_atoe`: whether there is an address, and the octets. -/
def Shared.etherAtoe (S : Shared) (word : List Char) (e : EtherAddr) : Bool × EtherAddr :=
  match S.parse word with
  | some a => (true, a)
  | none => (false, S.left word e)

/-! ## Colons and hexadecimal digits -/

def hexDigits : List Char := "0123456789ABCDEF".toList

def hexValue (c : Char) : Option Nat := if c ∈ hexDigits then some (hexDigits.idxOf c) else none

/-- Two digits. -/
def octetText (b : UInt8) : List Char :=
  [hexDigits.getD (b.toNat / 16) '0', hexDigits.getD (b.toNat % 16) '0']

def octetValue (high low : Char) : Option UInt8 := do
  let high ← hexValue high
  let low ← hexValue low
  some (UInt8.ofNat (16 * high + low))

/-- Octets with colons between them. -/
def colonText : List UInt8 → List Char
  | [] => []
  | [b] => octetText b
  | b :: c :: bs => octetText b ++ ':' :: colonText (c :: bs)

def colonOctets : List Char → Option (List UInt8)
  | [high, low] => (octetValue high low).map fun b => [b]
  | high :: low :: ':' :: s => do
    let b ← octetValue high low
    let bs ← colonOctets s
    some (b :: bs)
  | _ => none

theorem octetValue_octetText (b : UInt8) :
    octetValue (hexDigits.getD (b.toNat / 16) '0') (hexDigits.getD (b.toNat % 16) '0') =
      some b := by
  have hdigit : ∀ n < 16, hexValue (hexDigits.getD n '0') = some n := by decide
  have hlt := b.toNat_lt
  rw [octetValue, hdigit _ (by omega), hdigit _ (by omega)]
  refine congrArg some (UInt8.toNat_inj.mp ?_)
  rw [UInt8.toNat_ofNat']
  omega

theorem colonOctets_colonText (b : UInt8) (bs : List UInt8) :
    colonOctets (colonText (b :: bs)) = some (b :: bs) := by
  induction bs generalizing b with
  | nil =>
      rw [colonText, octetText, colonOctets, octetValue_octetText]
      rfl
  | cons c bs ih =>
      rw [colonText, octetText, List.cons_append, List.cons_append, List.nil_append, colonOctets,
        octetValue_octetText, ih]
      rfl

/-- The functions for words between blanks and addresses of this form. -/
def Shared.colons : Shared where
  foreach s := (s.splitOn ' ').filter (· ≠ [])
  parse s :=
    (colonOctets s).bind fun bs => if bs.length = 6 then some fun i => bs.getD i 0 else none
  left _ _ _ := 0
  etherEtoa a := colonText (List.ofFn a)
  parse_etherEtoa a := by
    rw [List.ofFn_succ, colonOctets_colonText, Option.bind_some, ← List.ofFn_succ,
      if_pos List.length_ofFn]
    refine congrArg some (funext fun i => ?_)
    rw [List.getD_eq_getElem _ _ (by rw [List.length_ofFn]; exact i.isLt), List.getElem_ofFn]

end BroadcomWl.Wlconf
