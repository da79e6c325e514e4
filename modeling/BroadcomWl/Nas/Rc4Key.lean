import BroadcomWl.Crypto.Cipher
import BroadcomWl.Lib.Counter

/-!
# The replay counter of RC4 keys

`eapol_key` sends a WEP key in an EAPOL-Key frame of the RC4 kind. Its replay counter is the time:
the seconds since 1900 in the upper half, a fraction of a second in the lower one. Where the clock
has not moved since the last key of the station, the microseconds are increased by the number of
keys sent at that time, so that the counter grows all the same.

**The counter.** `rc4_replay_increases_iff` says for which sequences of calls each frame has a
greater counter than the one before it. The microseconds that were added may be overtaken by the
clock, and may carry the fraction past the end of the second. -/

namespace BroadcomWl.Nas

open BroadcomWl.Lib (beNat beNat_append beNat_cons)
open BroadcomWl.Crypto (beBytes beBytes_length hmacMd5 prepareKey rc4)

def jan1970 : Nat := 0x83aa7e80

/-- `NTPFRAC` of a `long` of 32 bits, as `htonl` takes it; the shift is that of a signed number. -/
def ntpfrac (x : Nat) : Nat :=
  let y := 1981 * x % 2 ^ 32
  (4294 * x + (if y < 2 ^ 31 then y >>> 11 else y >>> 11 + (2 ^ 32 - 2 ^ 21))) % 2 ^ 32

/-- What `gettimeofday` fills in. -/
structure Timeval where
  sec : Nat
  usec : Nat
  usec_lt : usec < 1000000

/-- The fields of a station that belong to the counter; all are `uint32`. -/
structure Rc4Stamp where
  rc4keysec : Nat
  rc4keyusec : Nat
  rc4keycntr : Nat
deriving DecidableEq, Repr

/-- A call of `eapol_key`: what it is given, and what it gets from `malloc`, `gettimeofday` and
`nas_rand128`. -/
structure KeyCall where
  now : Timeval
  /-- what the allocated octets were before, or `none` where there is no memory -/
  heap : Option Bytes
  sta : Bytes
  sta_length : sta.length = 6
  nas : Bytes
  nas_length : nas.length = 6
  preAuth : Bool
  version : UInt8
  sendKey : Option Bytes
  recvKey : Bytes
  key : Option Bytes
  keyLen : Nat
  iv : Bytes
  index : UInt8
  unicast : Bool

def eapolTypeRc4Key : UInt8 := 1
def eapolKeyUnicast : UInt8 := 0x80

/-- The microseconds of the counter, and the new fields of the station. -/
def rc4Stamp (s : Rc4Stamp) (tv : Timeval) : Rc4Stamp × Nat :=
  if tv.usec = s.rc4keyusec ∧ tv.sec = s.rc4keysec then
    ({ s with rc4keycntr := (s.rc4keycntr + 1) % 2 ^ 32 }, (tv.usec + s.rc4keycntr) % 2 ^ 32)
  else (⟨tv.sec % 2 ^ 32, tv.usec % 2 ^ 32, 1⟩, tv.usec)

/-- `body->replay`. -/
def rc4Replay (sec usec : Nat) : Bytes :=
  beBytes 4 ((sec + jan1970) % 2 ^ 32) ++ beBytes 4 (ntpfrac usec)

/-- The frame up to the replay counter. -/
def KeyCall.header (c : KeyCall) : Bytes :=
  let length := 44 + if c.key.isSome then c.keyLen else 0
  c.sta ++ c.nas ++ be16 (if c.preAuth then 0x88c7 else 0x888e) ++ [c.version, 3] ++ be16 length ++
    [eapolTypeRc4Key] ++ be16 c.keyLen

/-- The signature: over the frame from the version on, with a null signature; without a key to sign
it the octets stay as they were allocated. -/
def KeyCall.signature (c : KeyCall) (heap front key : Bytes) : Bytes :=
  match c.sendKey with
  | some sendKey => hmacMd5 (front.drop 14 ++ List.replicate 16 0 ++ key) sendKey
  | none => (heap.drop front.length).take 16

/-- `eapol_key`: the fields of the station and the frame. -/
def eapolKeyFrame (s : Rc4Stamp) (c : KeyCall) : Rc4Stamp × Option Bytes :=
  match c.heap with
  | none => (s, none)
  | some heap =>
    let (s, usec) := rc4Stamp s c.now
    let index := if c.unicast then c.index ||| eapolKeyUnicast else c.index
    let front := c.header ++ rc4Replay c.now.sec usec ++ c.iv ++ [index]
    let key := match c.key with
      | some key => (rc4 (key.take c.keyLen) (prepareKey (c.iv ++ c.recvKey))).1
      | none => []
    (s, some (front ++ c.signature heap front key ++ key))

/-- The calls, and what the dispatcher of an Access-Accept does to the station before its
two calls. -/
inductive Rc4Event where
  | accepted
  | key (c : KeyCall)

/-- The frames that a sequence of events sends. -/
def rc4Frames : Rc4Stamp → List Rc4Event → List Bytes
  | _, [] => []
  | s, .accepted :: es => rc4Frames { s with rc4keysec := 2 ^ 32 - 1, rc4keyusec := 2 ^ 32 - 1 } es
  | s, .key c :: es => (eapolKeyFrame s c).2.toList ++ rc4Frames (eapolKeyFrame s c).1 es

/-- The replay counter of a frame. -/
def frameReplay (frame : Bytes) : Nat := beNat ((frame.drop 21).take 8)

/-! ## The counter of a frame -/

theorem beNat_beBytes (n v : Nat) : beNat (beBytes n v) = v % 256 ^ n := by
  induction n with
  | zero => exact (Nat.mod_one v).symm
  | succ n ih =>
      have hhead : (UInt8.ofNat (v >>> (8 * n))).toNat = v / 256 ^ n % 256 := by
        rw [Nat.shiftRight_eq_div_pow, pow_mul]
        rfl
      rw [beBytes, beNat_cons, hhead, beBytes_length, ih, pow_succ, Nat.mod_mul]
      ring

/-- The number that a time and a number of microseconds stand for. -/
def ntpTime (p : Nat × Nat) : Nat := p.1 * 2 ^ 32 + ntpfrac p.2

theorem ntpfrac_lt (x : Nat) : ntpfrac x < 2 ^ 32 := Nat.mod_lt _ (by decide)

theorem beNat_rc4Replay (sec usec : Nat) :
    beNat (rc4Replay sec usec) = ntpTime ((sec + jan1970) % 2 ^ 32, usec) := by
  have hfrac := ntpfrac_lt usec
  rw [rc4Replay, beNat_append, beNat_beBytes, beNat_beBytes, beBytes_length, ntpTime]
  norm_num at hfrac ⊢
  omega

theorem header_length (c : KeyCall) : c.header.length = 21 := by
  simp [KeyCall.header, be16, c.sta_length, c.nas_length]

/-- **The counter of a frame is the time of the call.** -/
theorem frameReplay_eapolKeyFrame (s : Rc4Stamp) (c : KeyCall) {heap : Bytes}
    (h : c.heap = some heap) :
    (eapolKeyFrame s c).2.map frameReplay =
      some (ntpTime ((c.now.sec + jan1970) % 2 ^ 32, (rc4Stamp s c.now).2)) := by
  have hreplay (sec usec : Nat) : (rc4Replay sec usec).length = 8 := by
    simp [rc4Replay]
  simp only [eapolKeyFrame, h, Option.map_some, frameReplay, List.append_assoc]
  rw [List.drop_left' (header_length c), List.take_left' (hreplay _ _), beNat_rc4Replay]

/-! ## The order of the counters -/

theorem ntpfrac_of_le {x : Nat} (h : x ≤ 1000000) : ntpfrac x = 4294 * x + 1981 * x / 2048 := by
  have hproduct : 1981 * x % 2 ^ 32 = 1981 * x := Nat.mod_eq_of_lt (by omega)
  simp only [ntpfrac, hproduct, Nat.shiftRight_eq_div_pow]
  rw [if_pos (by omega)]
  omega

theorem ntpfrac_overflow : ntpfrac 1000001 = 4284 := by
  decide

/-- One time is after another, and has a fraction that fits. -/
def Later (p q : Nat × Nat) : Prop := p.1 < q.1 ∨ p.1 = q.1 ∧ p.2 < q.2 ∧ q.2 ≤ 1000000

theorem ntpfrac_lt_iff {x y : Nat} (hx : x ≤ 1000000) (hy : y ≤ 1000000 ∨ y = x + 1) :
    ntpfrac x < ntpfrac y ↔ x < y ∧ y ≤ 1000000 := by
  by_cases hfits : y ≤ 1000000
  · rw [ntpfrac_of_le hx, ntpfrac_of_le hfits]
    omega
  · have hlast : x = 1000000 := by omega
    have hnext : y = 1000001 := by omega
    rw [hlast, hnext, ntpfrac_overflow, ntpfrac_of_le (by omega)]
    omega

theorem ntpTime_lt_iff {p q : Nat × Nat} (hp : p.2 ≤ 1000000) (hq : q.2 ≤ 1000000 ∨ q.2 = p.2 + 1) :
    ntpTime p < ntpTime q ↔ Later p q := by
  have hfrac := ntpfrac_lt_iff hp hq
  have hpfrac := ntpfrac_lt p.2
  have hqfrac := ntpfrac_lt q.2
  rw [ntpTime, ntpTime, Later, ← hfrac]
  norm_num at hpfrac hqfrac ⊢
  omega

/-! ## What came before -/

/-- The stamp of an earlier call is found again. -/
def SameTick (earlier now : Timeval) : Prop :=
  now.usec = earlier.usec ∧ now.sec = earlier.sec % 2 ^ 32

instance (earlier now : Timeval) : Decidable (SameTick earlier now) :=
  inferInstanceAs (Decidable (_ ∧ _))

/-- How many frames there were at a time without another between; the last event comes first. -/
def repeats (now : Timeval) : List Rc4Event → Nat
  | [] => 0
  | .accepted :: _ => 0
  | .key c :: past =>
      if c.heap = none then repeats now past
      else if SameTick c.now now then repeats c.now past + 1
      else 0

/-- The seconds and microseconds that a frame at a time gets. -/
def stampAfter (past : List Rc4Event) (now : Timeval) : Nat × Nat :=
  ((now.sec + jan1970) % 2 ^ 32, now.usec + repeats now past)

/-- Those of the last frame. -/
def lastStamp : List Rc4Event → Option (Nat × Nat)
  | [] => none
  | .accepted :: past => lastStamp past
  | .key c :: past => if c.heap = none then lastStamp past else some (stampAfter past c.now)

/-- **Each frame comes later than the one before it**, where the microseconds are those of the clock
and the number of frames that were sent at that time already. -/
def SpacedAfter (past : List Rc4Event) : List Rc4Event → Prop
  | [] => True
  | .accepted :: es => SpacedAfter (.accepted :: past) es
  | .key c :: es =>
      (c.heap ≠ none → ∀ p ∈ lastStamp past, Later p (stampAfter past c.now)) ∧
        SpacedAfter (.key c :: past) es

/-- The frames before had the same time, and the last of them one microsecond less. -/
theorem lastStamp_of_repeats {now : Timeval} {past : List Rc4Event} (h : repeats now past ≠ 0) :
    ∃ p, lastStamp past = some p ∧ p.1 = (stampAfter past now).1 ∧
    p.2 + 1 = (stampAfter past now).2 := by
  induction past with
  | nil => exact absurd rfl h
  | cons e past ih =>
      cases e with
      | accepted => exact absurd rfl h
      | key c =>
          by_cases hheap : c.heap = none
          · simp only [repeats, lastStamp, stampAfter, hheap, if_true] at h ih ⊢
            exact ih h
          · by_cases htick : SameTick c.now now
            · obtain ⟨husec, hsec⟩ := htick
              refine ⟨stampAfter past c.now, ?_, ?_, ?_⟩
              · simp [lastStamp, hheap]
              · simp only [stampAfter, hsec, Nat.mod_add_mod]
              · simp only [stampAfter, repeats, hheap, if_false, SameTick, husec, hsec,
                  and_self, if_true]
                omega
            · simp [repeats, hheap, htick] at h

/-! ## The fields of the station follow the events -/

/-- The fields of a station are those that events have left. -/
structure Follows (s : Rc4Stamp) (past : List Rc4Event) : Prop where
  sec_lt : s.rc4keysec < 2 ^ 32
  cntr : ∀ tv : Timeval,
    (if tv.usec = s.rc4keyusec ∧ tv.sec = s.rc4keysec then s.rc4keycntr else 0) =
      repeats tv past % 2 ^ 32

theorem Follows.start : Follows ⟨0, 0, 0⟩ [] where
  sec_lt := by decide
  cntr tv := by simp [repeats]

theorem Follows.accepted {s : Rc4Stamp} {past : List Rc4Event} (_ : Follows s past) :
    Follows { s with rc4keysec := 2 ^ 32 - 1, rc4keyusec := 2 ^ 32 - 1 } (.accepted :: past) where
  sec_lt := Nat.sub_lt (by decide) Nat.one_pos
  cntr tv := by
    have husec := tv.usec_lt
    have hother : tv.usec ≠ 4294967295 := by omega
    simp [hother, repeats]

/-- **One frame more.** Either its time is the one of the stamp, and the counter goes up, or the
stamp becomes its time and the counter one. -/
theorem Follows.frame {s : Rc4Stamp} {past : List Rc4Event} {c : KeyCall} (h : Follows s past)
    (hheap : c.heap ≠ none) : Follows (rc4Stamp s c.now).1 (.key c :: past) := by
  have husec := c.now.usec_lt
  have hcntr := h.cntr c.now
  by_cases hmatch : c.now.usec = s.rc4keyusec ∧ c.now.sec = s.rc4keysec
  · rw [if_pos hmatch] at hcntr
    have hsec := h.sec_lt
    rw [rc4Stamp, if_pos hmatch]
    refine ⟨hsec, fun tv => ?_⟩
    have htick : SameTick c.now tv ↔ tv.usec = s.rc4keyusec ∧ tv.sec = s.rc4keysec := by
      rw [SameTick, hmatch.1, hmatch.2, Nat.mod_eq_of_lt hsec]
    simp only [repeats, hheap, if_false, htick]
    split
    · rw [hcntr, Nat.mod_add_mod]
    · rfl
  · rw [rc4Stamp, if_neg hmatch]
    rw [if_neg hmatch] at hcntr
    refine ⟨Nat.mod_lt _ (by decide), fun tv => ?_⟩
    have htick : SameTick c.now tv ↔
        tv.usec = c.now.usec % 2 ^ 32 ∧ tv.sec = c.now.sec % 2 ^ 32 := by
      rw [SameTick, Nat.mod_eq_of_lt (show c.now.usec < 2 ^ 32 by omega)]
    simp only [repeats, hheap, if_false, htick]
    split
    · rw [Nat.add_mod, ← hcntr]
      rfl
    · rfl

theorem Follows.no_memory {s : Rc4Stamp} {past : List Rc4Event} {c : KeyCall} (h : Follows s past)
    (hheap : c.heap = none) : Follows s (.key c :: past) where
  sec_lt := h.sec_lt
  cntr tv := by
    simp only [repeats, hheap, if_true]
    exact h.cntr tv

/-- The microseconds of a frame are those of the clock and the number of frames at its time. -/
theorem Follows.usec {s : Rc4Stamp} {past : List Rc4Event} (h : Follows s past) (tv : Timeval) :
    (rc4Stamp s tv).2 = (tv.usec + repeats tv past) % 2 ^ 32 := by
  have husec := tv.usec_lt
  have hcntr := h.cntr tv
  unfold rc4Stamp
  split at hcntr
  · rename_i hmatch
    rw [if_pos hmatch, hcntr, Nat.add_mod_mod]
  · rename_i hmatch
    rw [if_neg hmatch, Nat.add_mod, ← hcntr]
    omega

/-! ## Runs -/

theorem stampAfter_le (past : List Rc4Event) (now : Timeval) :
    (stampAfter past now).2 ≤ 1000000 ∨
      ∃ p, lastStamp past = some p ∧ p.1 = (stampAfter past now).1 ∧
      (stampAfter past now).2 = p.2 + 1 := by
  by_cases hrep : repeats now past = 0
  · have husec := now.usec_lt
    simp only [stampAfter, hrep]
    omega
  · obtain ⟨p, hp, hsec, husec⟩ := lastStamp_of_repeats hrep
    exact .inr ⟨p, hp, hsec, husec.symm⟩

theorem stampAfter_le_of_later {past : List Rc4Event} {now : Timeval}
    (hlater : ∀ p ∈ lastStamp past, Later p (stampAfter past now)) :
    (stampAfter past now).2 ≤ 1000000 := by
  cases stampAfter_le past now with
  | inl hle => exact hle
  | inr hnext =>
      obtain ⟨p, hp, hsec, -⟩ := hnext
      cases hlater p hp with
      | inl hlt => omega
      | inr hafter => exact hafter.2.2

theorem Follows.replay {s : Rc4Stamp} {past : List Rc4Event} {c : KeyCall} {heap : Bytes}
    (h : Follows s past) (hlast : ∀ p ∈ lastStamp past, p.2 ≤ 1000000)
    (hheap : c.heap = some heap) :
    (eapolKeyFrame s c).2.map frameReplay = some (ntpTime (stampAfter past c.now)) := by
  have hle : c.now.usec + repeats c.now past ≤ 1000001 := by
    cases stampAfter_le past c.now with
    | inl hle => exact Nat.le_succ_of_le hle
    | inr hnext =>
        obtain ⟨p, hp, -, husec⟩ := hnext
        have hpLe := hlast p hp
        rw [stampAfter] at husec
        omega
  rw [frameReplay_eapolKeyFrame s c hheap, h.usec, stampAfter,
    Nat.mod_eq_of_lt (show c.now.usec + repeats c.now past < 2 ^ 32 by omega)]

theorem isChain_append_cons {last : Option Nat} {n : Nat} {l : List Nat} :
    (last.toList ++ n :: l).IsChain (· < ·) ↔ (∀ m ∈ last, m < n) ∧ (n :: l).IsChain (· < ·) := by
  cases last <;> simp

theorem lastStamp_lt_iff {past : List Rc4Event} (hlast : ∀ p ∈ lastStamp past, p.2 ≤ 1000000)
    (now : Timeval) :
    (∀ m ∈ (lastStamp past).map ntpTime, m < ntpTime (stampAfter past now)) ↔
      ∀ p ∈ lastStamp past, Later p (stampAfter past now) := by
  rw [Option.forall_mem_map]
  refine forall₂_congr fun p hp => ntpTime_lt_iff (hlast p hp) ?_
  cases stampAfter_le past now with
  | inl hle => exact .inl hle
  | inr hnext =>
      obtain ⟨q, hq, -, husec⟩ := hnext
      cases hp.symm.trans hq
      exact .inr husec

/-- The counters of the frames to come, after the last one, grow just where each frame
comes later. -/
theorem rc4Frames_isChain {es past : List Rc4Event} {s : Rc4Stamp} (h : Follows s past)
    (hlast : ∀ p ∈ lastStamp past, p.2 ≤ 1000000) :
    (((lastStamp past).map ntpTime).toList ++ (rc4Frames s es).map frameReplay).IsChain (· < ·) ↔
      SpacedAfter past es := by
  induction es generalizing s past with
  | nil =>
      cases lastStamp past <;> simp [rc4Frames, SpacedAfter]
  | cons e es ih =>
      cases e with
      | accepted =>
          exact ih h.accepted hlast
      | key c =>
          cases hheap : c.heap with
          | none =>
              have hstep := ih (h.no_memory hheap) (by simpa [lastStamp, hheap] using hlast)
              simpa [rc4Frames, eapolKeyFrame, SpacedAfter, lastStamp, hheap] using hstep
          | some heap =>
              have hsome : c.heap ≠ none := by simp [hheap]
              have hstate : (eapolKeyFrame s c).1 = (rc4Stamp s c.now).1 := by
                simp [eapolKeyFrame, hheap]
              have hnext : lastStamp (.key c :: past) = some (stampAfter past c.now) := by
                simp [lastStamp, hsome]
              have hreplay : (eapolKeyFrame s c).2.toList.map frameReplay =
                  [ntpTime (stampAfter past c.now)] := by
                rw [← Option.toList_map, h.replay hlast hheap, Option.toList_some]
              have htail (hlater : ∀ p ∈ lastStamp past, Later p (stampAfter past c.now)) :
                  (ntpTime (stampAfter past c.now) ::
                    (rc4Frames (rc4Stamp s c.now).1 es).map frameReplay).IsChain
                    (· < ·) ↔ SpacedAfter (.key c :: past) es := by
                have hle := stampAfter_le_of_later hlater
                have hstep := ih (h.frame hsome) (by simpa [hnext] using hle)
                simpa [hnext] using hstep
              rw [rc4Frames, List.map_append, hreplay, hstate, List.singleton_append,
                isChain_append_cons, lastStamp_lt_iff hlast, SpacedAfter]
              constructor
              · intro hgrow
                exact ⟨fun _ => hgrow.1, (htail hgrow.1).mp hgrow.2⟩
              · intro hspaced
                exact ⟨hspaced.1 hsome, (htail (hspaced.1 hsome)).mpr hspaced.2⟩

/-- **When the replay counters of RC4 keys grow.** -/
theorem rc4_replay_increases_iff (es : List Rc4Event) :
    ((rc4Frames ⟨0, 0, 0⟩ es).map frameReplay).Pairwise (· < ·) ↔ SpacedAfter [] es := by
  rw [← List.isChain_iff_pairwise]
  exact rc4Frames_isChain Follows.start (by simp [lastStamp])

/-- A group key of no octets that is not signed, sent at some time. -/
def plainKey (sec usec : Nat) : Rc4Event :=
  .key ⟨⟨sec, usec % 1000000, Nat.mod_lt usec (Nat.succ_pos 999999)⟩, some [],
    List.replicate 6 0, rfl,
    List.replicate 6 0, rfl, false, 1, none, [], none, 0, List.replicate 16 0, 0, false⟩

set_option maxRecDepth 100000 in
/-- The second frame of one microsecond has the counter of the first frame of the next one; the
third frame of the last microsecond of a second begins a fraction anew. -/
theorem replay_overtaken :
    (rc4Frames ⟨0, 0, 0⟩ [plainKey 1 5, plainKey 1 5, plainKey 1 6]).map frameReplay =
        [0x83aa7e81000053e2, 0x83aa7e81000064a9, 0x83aa7e81000064a9] ∧
      ¬((rc4Frames ⟨0, 0, 0⟩ [plainKey 1 5, plainKey 1 5, plainKey 1 6]).map frameReplay).Pairwise
        (· < ·) ∧
      ¬((rc4Frames ⟨0, 0, 0⟩ (List.replicate 3 (plainKey 1 999999))).map frameReplay).Pairwise
        (· < ·) := by
  decide +kernel

end BroadcomWl.Nas
