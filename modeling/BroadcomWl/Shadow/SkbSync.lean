import BroadcomWl.Shadow.Skb

/-!
# The shadow simulates a native packet

Between two boundary calls the shadow is ahead of the real packet in the fields that the blob
has written. What carries through a run is `Follows`: the shadow's fields are those of a native
packet to which the same operations were applied, and the real packet agrees with it on the two
ends of the buffer, which nothing moves. `sync_up` then brings the real packet to the native one
(`syncUp_follows`), every kernel function does the same to both, and `sync_down` brings the result
to the shadow.

**`shadow_simulates`** is this for any sequence of operations, with the returned values, what the
network stack receives, and the BUGs of the kernel. Three operations have to be left out where
the shim differs by design (`Plain`): refreshing a shadow that the blob has written to, trimming a
packet with data outside its linear area, and a device that the shim does not know.
-/

namespace BroadcomWl.Shadow.Skb

open BroadcomWl.Lib

/-- The state before an operation, and the operation, for which the shim is meant to be the
native packet. -/
def Plain (devs : Netdev.State) (t : Traced SkbShadow) (op : Op) : Prop :=
  match t.packet, op with
  | .live sh, .syncToBlob => sh.s236.toFields = sh.real.toFields
  | .live sh, .setLen _ => sh.s236.dataLen = 0
  | .live sh, .ethTypeTrans d => (devs.realOf d).getD sh.real.dev ≠ 0
  | _, _ => True

instance (devs : Netdev.State) (t : Traced SkbShadow) (op : Op) : Decidable (Plain devs t op) := by
  unfold Plain
  split <;> infer_instance

/-! ## Synchronisation -/

section Sync

variable {devs : Netdev.State} {sh : SkbShadow} {n : SkBuff}

/-- **A packet that the blob leaves alone is not changed by synchronising.** -/
theorem syncUp_syncDown (devs : Netdev.State) (sh : SkbShadow) :
    syncUp (syncDown devs sh) = syncDown devs sh := by
  simp [syncUp, syncDown, skbSetTailPointer]

/-- The shadow has the fields of the native packet `n`, and the real packet its buffer. -/
structure Follows (sh : SkbShadow) (n : SkBuff) : Prop where
  fields : sh.s236.toFields = n.toFields
  head : sh.real.head = n.head
  endPtr : sh.real.endPtr = n.endPtr

/-- A write to the fields keeps them together. The real packet is not touched, and a write of
the blob leaves `head` alone. -/
theorem Follows.write (h : Follows sh n) (f : Fields → Fields)
    (hhead : ∀ a, (f a).head = a.head) :
    Follows { sh with s236 := { sh.s236 with toFields := f sh.s236.toFields } }
      { n with toFields := f n.toFields } :=
  ⟨congrArg f h.fields, h.head.trans (hhead _).symm, h.endPtr⟩

/-- The real packet has the fields of the native packet `n`. -/
structure Matches (r n : SkBuff) : Prop where
  fields : r.toFields = n.toFields
  endPtr : r.endPtr = n.endPtr

/-- **`sync_up` brings the real packet to the native one.** -/
theorem syncUp_follows (h : Follows sh n) :
    Matches (syncUp sh).real n ∧ (syncUp sh).s236 = sh.s236 := by
  have hhead : sh.s236.head = sh.real.head := by rw [h.fields, h.head]
  unfold syncUp
  rw [if_neg (not_not_intro hhead)]
  refine ⟨⟨?_, h.endPtr⟩, rfl⟩
  rw [← h.fields]
  simp only [skbSetTailPointer]
  rw [← hhead, BitVec.add_comm, BitVec.sub_add_cancel]

/-- **`sync_down` brings the real packet to the shadow.** -/
theorem syncDown_follows {r : SkBuff} (h : Matches r n) (s : S236) :
    Follows (syncDown devs ⟨s, r⟩) n :=
  ⟨h.fields, by rw [← h.fields]; rfl, h.endPtr⟩

end Sync

/-! ## The kernel's functions -/

/-- Two results of a kernel function: both a BUG, or the same value and packets that match. -/
def Agree (a b : Option (BitVec 32 × SkBuff)) : Prop :=
  Option.Rel (fun a b => a.1 = b.1 ∧ Matches a.2 b.2) a b

section Kernel

variable {r n : SkBuff} {k : BitVec 32}

theorem skbPut_agree (h : Matches r n) : Agree (skbPut r k) (skbPut n k) := by
  obtain ⟨hf, he⟩ := h
  simp only [skbPut]
  rw [hf, he]
  by_cases hbug : n.dataLen ≠ 0 ∨ n.tail + k > n.endPtr
  · rw [if_pos hbug, if_pos hbug]
    exact .none
  · rw [if_neg hbug, if_neg hbug]
    exact .some ⟨rfl, ⟨rfl, rfl⟩⟩

theorem skbPush_agree (h : Matches r n) : Agree (skbPush r k) (skbPush n k) := by
  obtain ⟨hf, he⟩ := h
  simp only [skbPush]
  rw [hf, he]
  by_cases hbug : n.data - k < n.head
  · rw [if_pos hbug, if_pos hbug]
    exact .none
  · rw [if_neg hbug, if_neg hbug]
    exact .some ⟨rfl, ⟨rfl, rfl⟩⟩

theorem skbPull_agree (h : Matches r n) : Agree (skbPull r k) (skbPull n k) := by
  have hm := h
  obtain ⟨hf, he⟩ := h
  simp only [skbPull]
  rw [hf, he]
  by_cases hshort : k > n.len
  · rw [if_pos hshort, if_pos hshort]
    exact .some ⟨rfl, hm⟩
  · rw [if_neg hshort, if_neg hshort]
    by_cases hbug : n.len - k < n.dataLen
    · rw [if_pos hbug, if_pos hbug]
      exact .none
    · rw [if_neg hbug, if_neg hbug]
      exact .some ⟨rfl, ⟨rfl, rfl⟩⟩

theorem ethTypeTrans_agree (proto : BitVec 32 → BitVec 16) (h : Matches r n)
    (d d' : Netdev.Ptr) :
    Agree ((ethTypeTrans proto r d).map fun (p, r) => (p.setWidth 32, r))
      ((ethTypeTrans proto n d').map fun (p, r) => (p.setWidth 32, r)) := by
  have hdata : r.data = n.data := by rw [h.fields]
  have hpull : Agree (skbPull { r with dev := d } 14) (skbPull { n with dev := d' } 14) :=
    skbPull_agree ⟨h.fields, h.endPtr⟩
  unfold ethTypeTrans
  cases hr : skbPull { r with dev := d } 14 with
  | none =>
      rw [hr] at hpull
      cases hn : skbPull { n with dev := d' } 14 with
      | none => exact .none
      | some b => rw [hn] at hpull; cases hpull
  | some a =>
      rw [hr] at hpull
      cases hn : skbPull { n with dev := d' } 14 with
      | none => rw [hn] at hpull; cases hpull
      | some b =>
          rw [hn] at hpull
          cases hpull with
          | some hab => exact .some ⟨by simp only [hdata], hab.2⟩

end Kernel

/-! ## Runs -/

/-- The traces of a shadow and of a native packet: the same values returned, the same fields
handed to the stack, a BUG on both sides, or a shadow that follows the native packet. -/
structure Simulates (t : Traced SkbShadow) (u : Traced SkBuff) : Prop where
  returned : t.returned = u.returned
  packet :
    match t.packet, u.packet with
    | .live sh, .live n => Follows sh n
    | .handed f, .handed f' => f = f'
    | .bug, .bug => True
    | _, _ => False

section Steps

variable {devs : Netdev.State} {proto : BitVec 32 → BitVec 16} {sh : SkbShadow} {n : SkBuff}
  {l : List (BitVec 32)}

/-- A rerouted function does to the shadow what the kernel's function does to the native
packet. -/
theorem rerouted_simulates (h : Follows sh n) (f g : SkBuff → Option (BitVec 32 × SkBuff))
    (hfg : ∀ r, Matches r n → Agree (f r) (g n)) :
    Simulates (Traced.after ⟨.live sh, l⟩ (rerouted devs f sh))
      (Traced.after ⟨.live n, l⟩ (g n)) := by
  obtain ⟨hmatch, -⟩ := syncUp_follows h
  have hagree := hfg _ hmatch
  simp only [rerouted]
  cases hf : f (syncUp sh).real with
  | none =>
      rw [hf] at hagree
      cases hg : g n with
      | none => exact ⟨rfl, trivial⟩
      | some b => rw [hg] at hagree; cases hagree
  | some a =>
      rw [hf] at hagree
      cases hg : g n with
      | none => rw [hg] at hagree; cases hagree
      | some b =>
          rw [hg] at hagree
          cases hagree with
          | some hab =>
              simp only [Option.map_some, Traced.after, hab.1]
              exact ⟨rfl, syncDown_follows hab.2 _⟩

theorem step_simulates (h : Follows sh n) {op : Op} (hplain : Plain devs ⟨.live sh, l⟩ op) :
    Simulates (shadowStep devs proto ⟨.live sh, l⟩ op) (nativeStep proto ⟨.live n, l⟩ op) := by
  have hfields := h.fields
  cases op with
  | setLen k =>
      have hlin : n.dataLen = 0 := by
        rw [← hfields]
        exact hplain
      have htrim : skbTrim n k = { n with len := k, tail := n.data + k } := by
        unfold skbTrim
        rw [if_neg (not_not_intro hlin)]
      refine ⟨rfl, ?_⟩
      simp only [shadowStep, nativeStep, htrim]
      exact h.write (fun f => { f with len := k, tail := f.data + k }) fun _ => rfl
  | setPrio k => exact ⟨rfl, h.write (fun f => { f with priority := k }) fun _ => rfl⟩
  | setProtocol k => exact ⟨rfl, h.write (fun f => { f with protocol := k }) fun _ => rfl⟩
  | put k =>
      exact rerouted_simulates h (skbPut · k) (skbPut · k) fun r hm => skbPut_agree hm
  | push k =>
      exact rerouted_simulates h (skbPush · k) (skbPush · k) fun r hm => skbPush_agree hm
  | pull k =>
      exact rerouted_simulates h (skbPull · k) (skbPull · k) fun r hm => skbPull_agree hm
  | ethTypeTrans d =>
      have hdev : (devs.realOf d).getD sh.real.dev ≠ 0 := hplain
      simp only [shadowStep, nativeStep, shimEthTypeTrans, hdev, if_false]
      exact rerouted_simulates h
        (fun r => (ethTypeTrans proto r ((devs.realOf d).getD sh.real.dev)).map
          fun (p, r) => (p.setWidth 32, r))
        (fun r => (ethTypeTrans proto r d).map fun (p, r) => (p.setWidth 32, r))
        fun r hm => ethTypeTrans_agree proto hm _ _
  | unwrap =>
      obtain ⟨hmatch, hs⟩ := syncUp_follows h
      exact ⟨rfl, ⟨by rw [hs, hfields], by rw [hmatch.fields], hmatch.endPtr⟩⟩
  | syncToBlob =>
      have hsync : sh.s236.toFields = sh.real.toFields := hplain
      exact ⟨rfl, syncDown_follows ⟨hsync.symm.trans hfields, h.endPtr⟩ _⟩
  | netifRx =>
      obtain ⟨hmatch, -⟩ := syncUp_follows h
      exact ⟨rfl, hmatch.fields⟩

theorem run_simulates {t : Traced SkbShadow} {u : Traced SkBuff} {ops : List Op}
    (h : Simulates t u) (hplain : Along (shadowStep devs proto) (Plain devs) t ops) :
    Simulates (run (shadowStep devs proto) t ops) (run (nativeStep proto) u ops) := by
  induction ops generalizing t u with
  | nil => exact h
  | cons op ops ih =>
      refine ih ?_ hplain.2
      obtain ⟨tp, tl⟩ := t
      obtain ⟨up, ul⟩ := u
      obtain ⟨hret, hp⟩ := h
      cases hret
      cases tp with
      | live sh =>
          cases up with
          | live n => exact step_simulates hp hplain.1
          | handed f => exact hp.elim
          | bug => exact hp.elim
      | handed f =>
          cases up with
          | live n => exact hp.elim
          | handed f' => exact ⟨rfl, hp⟩
          | bug => exact hp.elim
      | bug =>
          cases up with
          | live n => exact hp.elim
          | handed f' => exact hp.elim
          | bug => exact ⟨rfl, trivial⟩

end Steps

/-- What is seen of a packet: the fields of the shadow, or those handed to the stack. -/
def Traced.seen {α : Type} (f : α → Fields) (t : Traced α) : Option Fields :=
  match t.packet with
  | .live a => some (f a)
  | .handed f => some f
  | .bug => none

theorem Simulates.seen {t : Traced SkbShadow} {u : Traced SkBuff} (h : Simulates t u) :
    t.seen (fun sh => sh.s236.toFields) = u.seen SkBuff.toFields := by
  obtain ⟨tp, tl⟩ := t
  obtain ⟨up, ul⟩ := u
  have hp := h.packet
  cases tp with
  | live sh =>
      cases up with
      | live n => exact congrArg some hp.fields
      | handed f => exact hp.elim
      | bug => exact hp.elim
  | handed f =>
      cases up with
      | live n => exact hp.elim
      | handed f' => exact congrArg some hp
      | bug => exact hp.elim
  | bug =>
      cases up with
      | live n => exact hp.elim
      | handed f' => exact hp.elim
      | bug => rfl

section System

variable (devs : Netdev.State) (proto : BitVec 32 → BitVec 16) (r : SkBuff) (ops : List Op)

/-- A packet that has been wrapped, after some operations. -/
def shadowRun : Traced SkbShadow := run (shadowStep devs proto) ⟨.live (wrap devs r), []⟩ ops

/-- The native packet after the same operations. -/
def nativeRun : Traced SkBuff := run (nativeStep proto) ⟨.live r, []⟩ ops

/-- The shadow shows the fields of the native packet. -/
def SeenAlike : Prop :=
  (shadowRun devs proto r ops).seen (fun sh => sh.s236.toFields) =
    (nativeRun proto r ops).seen SkBuff.toFields

instance : Decidable (SeenAlike devs proto r ops) := by
  unfold SeenAlike
  infer_instance

/-- **The shadow simulates a native packet.** The fields seen through the shadow, and in the end
by the stack, are those of a native packet to which the same operations were applied, and so are
the values they return; and synchronising down and up again changes nothing. -/
theorem shadow_simulates
    (hplain : Along (shadowStep devs proto) (Plain devs) ⟨.live (wrap devs r), []⟩ ops) :
    SeenAlike devs proto r ops ∧
      (shadowRun devs proto r ops).returned = (nativeRun proto r ops).returned ∧
      ∀ sh, syncUp (syncDown devs sh) = syncDown devs sh := by
  have hstart : Simulates ⟨.live (wrap devs r), []⟩ ⟨.live r, []⟩ :=
    ⟨rfl, syncDown_follows ⟨rfl, rfl⟩ _⟩
  have hrun := run_simulates hstart hplain
  exact ⟨hrun.seen, hrun.returned, syncUp_syncDown devs⟩

end System

/-- One interface, whose shadow is at 4096. -/
def oneInterface : Netdev.State :=
  Netdev.allocNetdevMq (Netdev.init (fun _ => 0) fun _ => 0) (some 4096) (some 600)

/-- A packet as `dev_alloc_skb` makes it: an empty area with 64 octets of headroom in a buffer
at 1000. -/
def emptyPacket : SkBuff := ⟨⟨0, 0, 0, 0, 0, 0, 1000, 1064, 1064⟩, 3000, 2400, 0, 0, false⟩

/-- A frame is received, trimmed and handed to the stack. -/
theorem shadow_simulates_receive :
    (shadowRun oneInterface (fun _ => 8) emptyPacket
      [.put 200, .pull 30, .setLen 114, .setPrio 5, .push 4, .ethTypeTrans 4096, .unwrap,
        .netifRx]).packet = .handed ⟨104, 0, 0, 0, 5, 0, 1000, 1104, 1208⟩ ∧
    SeenAlike oneInterface (fun _ => 8) emptyPacket
      [.put 200, .pull 30, .setLen 114, .setPrio 5, .push 4, .ethTypeTrans 4096, .unwrap,
        .netifRx] :=
  ⟨by decide, (shadow_simulates oneInterface (fun _ => 8) emptyPacket _ (by decide)).1⟩

/-- **Where the shim is not a native packet**: `sync_to_blob` takes back a length that the blob
has set, `PKTSETLEN` sets the length of a packet with data outside its linear area, and
`eth_type_trans` for a device that nobody knows leaves the header on. -/
theorem shadow_differs :
    ¬ SeenAlike oneInterface (fun _ => 8) emptyPacket [.put 200, .setLen 60, .syncToBlob] ∧
      ¬ SeenAlike oneInterface (fun _ => 8) { emptyPacket with dataLen := 500, len := 500 }
        [.setLen 60] ∧
      ¬ SeenAlike oneInterface (fun _ => 8) emptyPacket [.put 200, .ethTypeTrans 8192] := by
  decide

end BroadcomWl.Shadow.Skb
