import Mathlib

/-!
# Attribute sequences

An attribute is a type octet, a length octet that counts both of them, and a value of at most 253
octets. A sequence of attributes is their concatenation; it can be read in one way only
(`encodeAll_cancel`), so a sequence that begins with some attributes consists of them and others. -/

namespace BroadcomWl.Lib.Tlv

/-- The type and the value of an attribute. -/
abbrev Attr := UInt8 × List UInt8

/-- The value fits the length octet. -/
def Fits (a : Attr) : Prop := a.2.length ≤ 253

def encode (a : Attr) : List UInt8 := a.1 :: UInt8.ofNat (2 + a.2.length) :: a.2

def encodeAll (as : List Attr) : List UInt8 := as.flatMap encode

/-- The values of all attributes of a type, one after the other. -/
def valuesOf (type : UInt8) (as : List Attr) : List UInt8 :=
  (as.filter fun a => a.1 = type).flatMap Prod.snd

@[simp] theorem encodeAll_nil : encodeAll [] = [] := rfl

@[simp] theorem encodeAll_cons (a : Attr) (as : List Attr) :
    encodeAll (a :: as) = encode a ++ encodeAll as := rfl

@[simp] theorem encodeAll_append (as bs : List Attr) :
    encodeAll (as ++ bs) = encodeAll as ++ encodeAll bs := by
  simp [encodeAll]

@[simp] theorem encode_length (a : Attr) : (encode a).length = 2 + a.2.length := by
  simp [encode]
  omega

theorem Fits.length_octet {a : Attr} (h : Fits a) :
    (UInt8.ofNat (2 + a.2.length)).toNat = 2 + a.2.length := by
  have hle : a.2.length ≤ 253 := h
  rw [UInt8.toNat_ofNat']
  omega

theorem length_le_encodeAll {a : Attr} {as : List Attr} (h : a ∈ as) :
    2 + a.2.length ≤ (encodeAll as).length := by
  rw [← encode_length]
  exact (List.sublist_flatten_of_mem (List.mem_map_of_mem h)).length_le

theorem encodeAll_cancel {as : List Attr} (has : ∀ a ∈ as, Fits a) :
    ∀ {bs : List Attr} {x : List UInt8}, (∀ b ∈ bs, Fits b) → encodeAll as ++ x = encodeAll bs →
      ∃ cs, bs = as ++ cs ∧ x = encodeAll cs := by
  induction as with
  | nil => intro bs x _ h; exact ⟨bs, rfl, h⟩
  | cons a as ih =>
      intro bs x hbs h
      cases bs with
      | nil => cases h
      | cons b bs =>
          have hcons : a.1 :: UInt8.ofNat (2 + a.2.length) :: (a.2 ++ (encodeAll as ++ x))
              = b.1 :: UInt8.ofNat (2 + b.2.length) :: (b.2 ++ encodeAll bs) := by
            simpa [encode] using h
          obtain ⟨htype, hrest⟩ := List.cons_eq_cons.mp hcons
          obtain ⟨hoctet, hrest⟩ := List.cons_eq_cons.mp hrest
          have hlen : a.2.length = b.2.length := by
            have := congrArg UInt8.toNat hoctet
            rw [Fits.length_octet (has a (by simp)), Fits.length_octet (hbs b (by simp))] at this
            omega
          obtain ⟨hvalue, htail⟩ := List.append_inj hrest hlen
          obtain ⟨cs, rfl, hx⟩ :=
            ih (fun a' h' => has a' (by simp [h'])) (fun b' h' => hbs b' (by simp [h'])) htail
          refine ⟨cs, ?_, hx⟩
          rw [show a = b from Prod.ext htype hvalue, List.cons_append]

/-- The least number of octets that values of a total length take as attributes. -/
def minSize (n : Nat) : Nat := n + 2 * ((n + 252) / 253)

theorem minSize_add_le (m n : Nat) (h : m ≤ 253) : minSize (m + n) ≤ 2 + m + minSize n := by
  unfold minSize
  omega

/-- The attributes of one type take as much room as their values need, and the others come
on top. -/
theorem minSize_le (type : UInt8) {as : List Attr} (has : ∀ a ∈ as, Fits a) :
    minSize (valuesOf type as).length + (encodeAll (as.filter fun a => a.1 ≠ type)).length
      ≤ (encodeAll as).length := by
  induction as with
  | nil => simp [valuesOf, minSize]
  | cons a as ih =>
      have h := ih fun a' h' => has a' (by simp [h'])
      by_cases ht : a.1 = type
      · have hstep := minSize_add_le a.2.length (valuesOf type as).length (has a (by simp))
        have hval : valuesOf type (a :: as) = a.2 ++ valuesOf type as := by
          simp [valuesOf, ht]
        rw [hval, List.length_append, List.filter_cons_of_neg (by simpa using ht), encodeAll_cons,
          List.length_append, encode_length]
        omega
      · have hval : valuesOf type (a :: as) = valuesOf type as := by
          simp [valuesOf, ht]
        rw [hval, List.filter_cons_of_pos (by simpa using ht), encodeAll_cons, encodeAll_cons,
          List.length_append, List.length_append, encode_length]
        omega

end BroadcomWl.Lib.Tlv
