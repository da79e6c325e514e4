import Mathlib
import BroadcomWl.Shadow.NetdevMap

/-!
# The transmit queue's bit operations

Every bit operation of the blob passes through the shim, which has to be two things at once: a
plain bit operation on whatever word it is given, and, on bit 0 of a shadow's queue-state word, a
stop or a wake of the real queue.

**`bitLe_plain`**: it is always a plain bit operation, for every word, bit and device.
**`queue_mirrored`**: the real queue is stopped exactly when bit 0 of the fake queue's state is
set, as long as that bit is reached by the address of its word. The shim compares the address it
is given with those of the queue-state words; a bit number of 32 or more names a bit of a later
word, and one that reaches the state word from an earlier address changes the bit without
telling the queue (`reached_from_below`).
-/

namespace BroadcomWl.Shadow.Netdev

open BroadcomWl.Lib

/-! ## The shim is a plain bit operation -/

/-- **The words and the old bit are those of the plain operation.** -/
theorem bitLe_plain (s : State) (op : BitOp) (nr : Nat) (p : Ptr) :
    (bitLe s op nr p).words = (plainBitop s.words op nr p).1 ∧
      (bitLe s op nr p).returned = (plainBitop s.words op nr p).2 :: s.returned := by
  simp only [bitLe, txqBitop]
  cases s.shadows.find? fun sh => p = sh.txqState with
  | none => exact ⟨rfl, rfl⟩
  | some found =>
      cases op with
      | set => by_cases hnr : nr = 0 <;> simp [hnr, plainBitop]
      | testAndSet => by_cases hnr : nr = 0 <;> simp [hnr, plainBitop]
      | testAndClear =>
          by_cases hnr : nr = 0
          · by_cases hb : testBit s.words nr p = true <;> simp_all [plainBitop]
          · simp [hnr, plainBitop]

/-- Memory with plain bit operations: what the calls do to the words and what they return when
there is no shim. Allocating a shadow zeroes its memory. -/
structure Plain where
  words : Ptr → BitVec 32
  returned : List (Option Bool)

def plainStep (m : Plain) : Event → Plain
  | .allocNetdevMq (some p) _ =>
      { m with words := Function.update m.words (p + txqStateOffset) 0 }
  | .bit op nr p =>
      let r := plainBitop m.words op nr p
      ⟨r.1, r.2 :: m.returned⟩
  | _ => m

/-- The words and returns of the shim. -/
def State.plain (s : State) : Plain := ⟨s.words, s.returned⟩

theorem step_plain (s : State) (e : Event) : (step s e).plain = plainStep s.plain e := by
  cases e with
  | allocNetdevMq sh real =>
      cases sh with
      | none => rfl
      | some p => cases real <;> rfl
  | registerNetdev p ok =>
      simp only [step, registerNetdev]
      split
      · split
        · split <;> rfl
        · rfl
      · rfl
  | unregisterNetdev p =>
      simp only [step, unregisterNetdev]
      split
      · split <;> rfl
      · rfl
  | freeNetdev p =>
      simp only [step, freeNetdev]
      split <;> rfl
  | exit => rfl
  | bit op nr p =>
      obtain ⟨hw, hr⟩ := bitLe_plain s op nr p
      simp only [step, State.plain, plainStep, hw, hr]

theorem run_plain (s : State) (es : List Event) :
    (run step s es).plain = run plainStep s.plain es := by
  induction es generalizing s with
  | nil => rfl
  | cons e es ih => rw [run_cons, run_cons, ih, step_plain]

/-! ## The mirror -/

/-- Bit 0 of a fake queue's state, `__QUEUE_STATE_XOFF`. -/
def State.xoff (s : State) (sh : NetdevShadow) : Bool := testBit s.words 0 sh.txqState

/-- Each real queue is stopped exactly when the fake one is. -/
def Mirrored (s : State) : Prop := ∀ sh ∈ s.shadows, s.stopped sh.real = s.xoff sh

/-- Bit 0 of a queue-state word is reached by the address of that word only. -/
def Direct (s : State) : Event → Prop
  | .bit _ nr p => ∀ sh ∈ s.shadows, bitWord nr p = sh.txqState → nr % 32 = 0 → nr = 0
  | _ => True

instance (s : State) : (e : Event) → Decidable (Direct s e)
  | .bit _ nr p => inferInstanceAs
      (Decidable (∀ sh ∈ s.shadows, bitWord nr p = sh.txqState → nr % 32 = 0 → nr = 0))
  | .allocNetdevMq _ _ => isTrue trivial
  | .registerNetdev _ _ => isTrue trivial
  | .unregisterNetdev _ => isTrue trivial
  | .freeNetdev _ => isTrue trivial
  | .exit => isTrue trivial

section Bits

variable {words : Ptr → BitVec 32} {nr : Nat} {p q : Ptr}

theorem testBit_setBit_self : testBit (setBit words 0 p) 0 p = true := by
  simp [testBit, setBit, bitWord]

theorem testBit_clearBit_self : testBit (clearBit words 0 p) 0 p = false := by
  simp [testBit, clearBit, bitWord]

theorem testBit_setBit_of_ne (h : bitWord nr p = q → nr % 32 ≠ 0) :
    testBit (setBit words nr p) 0 q = testBit words 0 q := by
  by_cases hq : bitWord nr p = q
  · subst hq
    have hne := h rfl
    simp [testBit, setBit, bitWord, Nat.pos_of_ne_zero hne]
  · have hq' : q ≠ bitWord nr p := fun heq => hq heq.symm
    simp [testBit, setBit, show bitWord 0 q = q from rfl, hq']

theorem testBit_clearBit_of_ne (h : bitWord nr p = q → nr % 32 ≠ 0) :
    testBit (clearBit words nr p) 0 q = testBit words 0 q := by
  by_cases hq : bitWord nr p = q
  · subst hq
    have hne := h rfl
    simp [testBit, clearBit, bitWord, Nat.pos_of_ne_zero hne]
  · have hq' : q ≠ bitWord nr p := fun heq => hq heq.symm
    simp [testBit, clearBit, show bitWord 0 q = q from rfl, hq']

end Bits

section Steps

variable {s : State}

theorem MapInv.ptr_ne (h : MapInv s) {x y : NetdevShadow} (hx : x ∈ s.shadows)
    (hy : y ∈ s.shadows) (hne : x ≠ y) : x.ptr ≠ y.ptr ∧ x.real ≠ y.real :=
  ⟨fun heq => hne (List.inj_on_of_nodup_map h.ptr_inj hx hy heq),
    fun heq => hne (List.inj_on_of_nodup_map h.real_inj hx hy heq)⟩

theorem txqState_ne {x y : NetdevShadow} (h : x.ptr ≠ y.ptr) : x.txqState ≠ y.txqState :=
  fun heq => h (Nat.add_right_cancel heq)

/-- A bit operation that does not reach bit 0 of a queue-state word leaves it alone. -/
theorem testBit_plain_of_ne {words : Ptr → BitVec 32} {op : BitOp} {nr : Nat} {p q : Ptr}
    (h : bitWord nr p = q → nr % 32 ≠ 0) :
    testBit (plainBitop words op nr p).1 0 q = testBit words 0 q := by
  cases op with
  | set => exact testBit_setBit_of_ne h
  | testAndSet => exact testBit_setBit_of_ne h
  | testAndClear => exact testBit_clearBit_of_ne h

theorem bitLe_stopped (op : BitOp) (nr : Nat) (p : Ptr) :
    (bitLe s op nr p).stopped = s.stopped ∧ (nr ≠ 0 ∨ (∀ sh ∈ s.shadows, p ≠ sh.txqState) ∨
        op = .testAndClear ∧ testBit s.words 0 p = false) ∨
      nr = 0 ∧ ∃ found ∈ s.shadows, p = found.txqState ∧
        (bitLe s op nr p).stopped =
          Function.update s.stopped found.real (decide (op ≠ .testAndClear)) := by
  simp only [bitLe, txqBitop]
  cases hfind : s.shadows.find? fun sh => p = sh.txqState with
  | none =>
      left
      refine ⟨rfl, .inr (.inl fun sh hsh => ?_)⟩
      simpa using List.find?_eq_none.mp hfind sh hsh
  | some found =>
      have hmem := List.mem_of_find?_eq_some hfind
      have hp : p = found.txqState := by simpa using List.find?_some hfind
      by_cases hnr : nr = 0
      · subst hnr
        by_cases hop : op = .testAndClear
        · by_cases hb : testBit s.words 0 p = true
          · exact .inr ⟨rfl, found, hmem, hp, by simp [hop, hb]⟩
          · exact .inl ⟨by simp [hop, hb], .inr (.inr ⟨hop, by simpa using hb⟩)⟩
        · exact .inr ⟨rfl, found, hmem, hp, by simp [hop]⟩
      · exact .inl ⟨by simp [hnr], .inl hnr⟩

theorem bitLe_mirrored (h : MapInv s) (hm : Mirrored s) {op : BitOp} {nr : Nat} {p : Ptr}
    (hdirect : Direct s (.bit op nr p)) : Mirrored (bitLe s op nr p) := by
  intro sh hsh
  rw [(bitLe_frame op nr p).1] at hsh
  have hxoff : (bitLe s op nr p).xoff sh =
      testBit (plainBitop s.words op nr p).1 0 sh.txqState := by
    rw [State.xoff, (bitLe_plain s op nr p).1]
  have hold : s.stopped sh.real = testBit s.words 0 sh.txqState := hm sh hsh
  rw [hxoff]
  rcases bitLe_stopped (s := s) op nr p with ⟨hstop, hcase⟩ | ⟨rfl, found, hmem, rfl, hstop⟩
  · rw [hstop, hold]
    rcases hcase with hnr | hforeign | ⟨rfl, hclear⟩
    · rw [testBit_plain_of_ne]
      exact fun hword hmod => hnr (hdirect sh hsh hword hmod)
    · rw [testBit_plain_of_ne]
      intro hword hmod
      have hnr := hdirect sh hsh hword hmod
      subst hnr
      exact hforeign sh hsh hword
    · -- the bit was clear, and clearing it again changes nothing
      by_cases hnr : nr = 0
      · subst hnr
        by_cases hp : p = sh.txqState
        · rw [← hp, hclear]
          exact testBit_clearBit_self.symm
        · rw [testBit_plain_of_ne]
          exact fun hword _ => hp hword
      · rw [testBit_plain_of_ne]
        exact fun hword hmod => hnr (hdirect sh hsh hword hmod)
  · rw [hstop]
    by_cases heq : sh = found
    · subst heq
      rw [Function.update_self]
      cases op with
      | set => exact testBit_setBit_self.symm
      | testAndSet => exact testBit_setBit_self.symm
      | testAndClear => exact testBit_clearBit_self.symm
    · obtain ⟨hptr, hreal⟩ := h.ptr_ne hsh hmem heq
      rw [Function.update_of_ne hreal, hold, testBit_plain_of_ne]
      exact fun hword => absurd hword.symm (txqState_ne hptr)

theorem allocNetdevMq_mirrored (hm : Mirrored s) {sh real : Option Ptr}
    (hfresh : Fresh s (.allocNetdevMq sh real)) : Mirrored (allocNetdevMq s sh real) := by
  cases sh with
  | none => exact hm
  | some p =>
      obtain ⟨-, hp⟩ := hfresh.1 p rfl
      have hother : ∀ x ∈ s.shadows,
          testBit (Function.update s.words (p + txqStateOffset) 0) 0 x.txqState = s.xoff x := by
        intro x hx
        have hne : x.txqState ≠ p + txqStateOffset :=
          fun heq => hp x hx (Nat.add_right_cancel heq)
        simp [State.xoff, testBit, bitWord, hne]
      cases real with
      | none =>
          intro x hx
          exact (hm x hx).trans (hother x hx).symm
      | some r =>
          obtain ⟨-, hr⟩ := hfresh.2 r rfl
          intro x hx
          rcases List.mem_cons.mp hx with rfl | hx
          · simp [allocNetdevMq, State.xoff, testBit, bitWord, NetdevShadow.txqState]
          · simp only [allocNetdevMq, Function.update_of_ne (hr x hx)]
            exact (hm x hx).trans (hother x hx).symm

theorem step_mirrored (h : MapInv s) (hm : Mirrored s) (e : Event) (hfresh : Fresh s e)
    (hdirect : Direct s e) : Mirrored (step s e) := by
  cases e with
  | allocNetdevMq sh real => exact allocNetdevMq_mirrored hm hfresh
  | registerNetdev p ok =>
      simp only [step, registerNetdev]
      split
      · split
        · split <;> exact hm
        · exact hm
      · exact hm
  | unregisterNetdev p =>
      simp only [step, unregisterNetdev]
      split
      · split <;> exact hm
      · exact hm
  | freeNetdev p =>
      simp only [step, freeNetdev]
      split
      · intro x hx
        exact hm x (List.mem_of_mem_filter hx)
      · exact hm
  | exit => intro x hx; cases hx
  | bit op nr p => exact bitLe_mirrored h hm hdirect

end Steps

/-! ## Runs -/

/-- **The shim is plain bit operations with a mirrored queue.** Over any sequence of calls the
words and the returned old bits are those of plain bit operations, and if the bits of the queues
are reached by the addresses of their words only, each real queue is stopped exactly when bit 0
of its fake one is set. -/
theorem queue_mirrored (foreign : Ptr → Nat) (words : Ptr → BitVec 32)
    (hforeign : ∀ p, foreign p ≠ shadowMagic) (es : List Event)
    (hfresh : Along step Fresh (init foreign words) es) :
    (run step (init foreign words) es).plain = run plainStep ⟨words, []⟩ es ∧
      (Along step Direct (init foreign words) es →
        Mirrored (run step (init foreign words) es)) := by
  refine ⟨run_plain _ es, fun hdirect => ?_⟩
  have hboth : Along step (fun s e => Fresh s e ∧ Direct s e) (init foreign words) es :=
    hfresh.and hdirect
  have hinv : MapInv (run step (init foreign words) es) ∧
      Mirrored (run step (init foreign words) es) :=
    run_invariant (I := fun s => MapInv s ∧ Mirrored s)
      (fun _ e h hc => ⟨step_mapInv h.1 e hc.1, step_mirrored h.1 h.2 e hc.1 hc.2⟩)
      ⟨(init_refines hforeign words).inv, (by rintro _ ⟨⟩)⟩ hboth
  exact hinv.2

/-- A queue is stopped and woken between operations on words of the driver. -/
theorem queue_mirrored_stop_wake :
    Mirrored (run step (init (fun _ => 0) (fun _ => 0)) [.allocNetdevMq (some 4096) (some 600),
      .allocNetdevMq (some 8192) (some 500), .bit .set 0 (4096 + txqStateOffset),
      .bit .testAndSet 40 256, .bit .testAndClear 0 (4096 + txqStateOffset),
      .bit .testAndSet 0 (8192 + txqStateOffset)]) :=
  (queue_mirrored _ _ (fun _ => by decide) _ (by decide)).2 (by decide)

/-- **Bit 32 of the word before the state is bit 0 of the state.** The address is not that of a
queue-state word, so the operation is taken for a foreign one, and the fake queue is stopped
while the real one runs. -/
theorem reached_from_below :
    ¬ ∀ es, Along step Fresh (init (fun _ => 0) (fun _ => 0)) es →
      Mirrored (run step (init (fun _ => 0) (fun _ => 0)) es) := by
  intro h
  have hm := h [.allocNetdevMq (some 4096) (some 600), .bit .set 32 (4096 + txqStateOffset - 4)]
    (by decide)
  exact absurd (hm ⟨4096, 600⟩ (by decide)) (by decide)

end BroadcomWl.Shadow.Netdev
