import BroadcomWl.Lib.Memory
import BroadcomWl.Shadow.Pci

/-!
# The table of device ids in memory

`build_id_table` copies the entries of 28 octets of the blob's table into entries of 32 octets,
behind which `kcalloc` leaves a terminator. When the kernel has found the entry for a device it
calls `wl_pci_probe_tramp`, which makes a shadow of the device and looks up by the address of the
entry which one of the blob's it is.

**Refinement.** What stands in memory after `build_id_table` is the translated table of
`buildIdTable` (`buildIdTableAt_eq`).

**Size.** There is room for 256 entries and the terminator behind them, so what counts as a table
without a terminator has 257 entries. `id_translation` says what becomes of every table. -/

namespace BroadcomWl.Shadow.Pci

open BroadcomWl.Lib.Memory

/-- The octets of the kernel's memory. -/
abbrev KMem := Nat → UInt8

/-- `WL236_PCI_DEVICE_ID_SIZEOF`. -/
def blobIdSize : Nat := 28

/-- `sizeof(struct pci_device_id)`. -/
def idSize : Nat := 32

/-- A `u32` in memory, least significant octet first. -/
def wordAt (m : KMem) (a : Nat) : UInt32 :=
  UInt32.ofNat ((m a).toNat +
    256 * ((m (a + 1)).toNat + 256 * ((m (a + 2)).toNat + 256 * (m (a + 3)).toNat)))

/-- The entry of the blob at an address. -/
def blobIdAt (m : KMem) (a : Nat) : BlobId := fun j => wordAt m (a + 4 * j)

/-- The blob's table at an address. -/
def tableAt (m : KMem) (tbl n : Nat) : BlobId := blobIdAt m (tbl + blobIdSize * n)

/-- The `struct pci_device_id` at an address. -/
def idAt (m : KMem) (a : Nat) : PciDeviceId := ⟨blobIdAt m a, wordAt m (a + blobIdSize)⟩

/-! ## The code -/

/-- The `memcpy` of the first `n` entries. -/
def copyIds (m : KMem) (tbl ids : Nat) : Nat → KMem
  | 0 => m
  | n + 1 =>
    let m := copyIds m tbl ids n
    store m (ids + idSize * n) (load m (tbl + blobIdSize * n) : Fin blobIdSize → UInt8)

/-- A table of `n` entries and the terminator is in memory. -/
def translate (m : KMem) (tbl ids n : Nat) : KMem :=
  copyIds (store m ids (fun _ : Fin (idSize * (n + 1)) => 0)) tbl ids n

/-- `wl_pci` with the table that stands at an address. -/
def State.withIds (s : State) (m : KMem) (ids n : Nat) : State :=
  { s with
    ids := some ⟨ids, (List.range (n + 1)).map fun i => idAt m (ids + idSize * i)⟩, nids := n }

/-- `build_id_table`, for the table at an address; `mem` is what `kcalloc` returns. -/
def buildIdTableAt (m : KMem) (s : State) (tbl : Nat) (mem : Option Nat) : State × KMem × Int :=
  if tbl = 0 then (s, m, einval)
  else
    match countIds (tableAt m tbl) 257 0 with
    | none => (s, m, einval)
    | some n =>
      match mem with
      | none => ({ s with ids := none }, m, enomem)
      | some ids =>
        let m := translate m tbl ids n
        (s.withIds m ids n, m, 0)

/-- The fields of the kernel's `struct pci_dev` that the shadow has. -/
structure PciDev where
  bus : Ptr
  devfn : UInt32
  vendor : UInt16
  device : UInt16
  irq : UInt32
  resourceStart : UInt64
  resourceEnd : UInt64
  resourceFlags : UInt32

/-- `struct wl_pci_dev_shadow`; what else there is of `s236` is zero. -/
structure PciDevShadow where
  bus : Ptr
  devfn : UInt32
  vendor : UInt16
  device : UInt16
  irq : UInt32
  resourceStart : UInt32
  resourceEnd : UInt32
  resourceFlags : UInt32
  real : PciDev
  magic : UInt32

/-- `pdev_shadow_new`, once `kzalloc` has given memory. -/
def pdevShadowNew (real : PciDev) : PciDevShadow where
  bus := real.bus
  devfn := real.devfn
  vendor := real.vendor
  device := real.device
  irq := real.irq
  resourceStart := real.resourceStart.toUInt32
  resourceEnd := real.resourceEnd.toUInt32
  resourceFlags := real.resourceFlags
  real := real
  magic := 0x57315044

def enodev : Int := -19

/-- What `wl_pci_probe_tramp` does. -/
inductive ProbeObs
  /-- The shadow at an address is filled in. -/
  | shadowed (sh : Ptr) (shadow : PciDevShadow)
  | drvdata (p : Ptr)
  /-- The blob's function is called, with the address of the device and that of the id. -/
  | probed (pdev id : Ptr)
  | freed (p : Ptr)

/-- The calls of the blob's function. -/
def ProbeObs.call : ProbeObs → Option (Ptr × Ptr)
  | .probed pdev id => some (pdev, id)
  | _ => none

/-- The entry of the blob for an entry of `wl_pci.ids`: the difference of the addresses is divided
by the size of an entry and cut to an `unsigned int`. -/
def blobIdOf (s : State) (d : BlobDriver) (id : Nat) : Nat :=
  let ids : Nat := s.idsPtr
  let tbl : Nat := d.idTable
  if id ≠ 0 ∧ ids ≠ 0 ∧ s.nids ≠ 0 then
    let i := (((id : Int) - ids) / idSize % 2 ^ 32).toNat
    if i < s.nids then tbl + blobIdSize * i else 0
  else 0

/-- `wl_pci_probe_tramp`; `mem` is what `kzalloc` returns, and `ret` what the blob's function
returns. Without a driver there is nothing that it could read. -/
def wlPciProbeTramp (s : State) (real : PciDev) (id : Nat) (mem : Option Ptr) (ret : Int) :
    Option (Int × List ProbeObs) :=
  match s.blobDrv with
  | none => none
  | some d =>
    if d.probe = 0 then some (enodev, [])
    else
      match mem with
      | none => some (enomem, [])
      | some sh =>
        let log := [.shadowed sh (pdevShadowNew real), .drvdata sh, .probed sh (blobIdOf s d id)]
        if ret ≠ 0 then some (ret, log ++ [.drvdata 0, .freed sh]) else some (ret, log)

/-! ## Counting -/

theorem countIds_skip {t : Nat → BlobId} {n k : Nat} (fuel : Nat) (hk : n + k ≤ 256)
    (h : ∀ i < k, t (n + i) ≠ fun _ => 0) : countIds t (fuel + k) n = countIds t fuel (n + k) := by
  induction k generalizing n with
  | zero => rfl
  | succ k ih =>
      have hfirst : t n ≠ fun _ => 0 := h 0 (Nat.succ_pos k)
      have hrest : ∀ i < k, t (n + 1 + i) ≠ fun _ => 0 := by
        intro i hi
        have hnext := h (i + 1) (Nat.succ_lt_succ hi)
        rwa [← Nat.add_assoc, Nat.add_right_comm] at hnext
      rw [← Nat.add_assoc, countIds, if_neg hfirst, if_neg (by omega), ih (by omega) hrest,
        Nat.add_right_comm, Nat.add_assoc]

/-- **A table of at most 256 entries is counted.** -/
theorem countIds_eq {t : Nat → BlobId} {n : Nat} (hn : n ≤ 256) (h : ∀ i < n, t i ≠ fun _ => 0)
    (hend : t n = fun _ => 0) : countIds t 257 0 = some n := by
  have hskip := countIds_skip (t := t) (n := 0) (k := n) (256 - n + 1) (by omega)
    (fun i hi => (Nat.zero_add i).symm ▸ h i hi)
  rw [show 256 - n + 1 + n = 257 by omega, Nat.zero_add] at hskip
  rw [hskip, countIds, if_pos hend]

theorem countIds_none {t : Nat → BlobId} (h : ∀ i ≤ 256, t i ≠ fun _ => 0) :
    countIds t 257 0 = none := by
  have hskip := countIds_skip (t := t) (n := 0) (k := 256) 1 (by omega)
    (fun i hi => (Nat.zero_add i).symm ▸ h i hi.le)
  rw [hskip, countIds, if_neg (h 256 le_rfl), if_pos (by omega)]

/-! ## Copying -/

section

variable {m : KMem} {tbl ids n : Nat}

theorem wordAt_congr {w : KMem} {a b : Nat} (h : ∀ i < 4, m (a + i) = w (b + i)) :
    wordAt m a = wordAt w b := by
  have h0 : m a = w b := h 0 (by omega)
  rw [wordAt, wordAt, h0, h 1 (by omega), h 2 (by omega), h 3 (by omega)]

theorem blobIdAt_congr {m' : KMem} {a b : Nat} (h : ∀ i < blobIdSize, m (a + i) = m' (b + i)) :
    blobIdAt m a = blobIdAt m' b := by
  funext j
  refine wordAt_congr fun i hi => ?_
  have hj := j.isLt
  have hoctet := h (4 * j + i) (by unfold blobIdSize; omega)
  rwa [← Nat.add_assoc, ← Nat.add_assoc] at hoctet

/-- The octets of an array of `n + 1` entries of which the first `k` have been copied. -/
theorem copyIds_apply (hapart : Apart tbl (28 * (n + 1)) ids (32 * (n + 1))) {k : Nat}
    (hk : k ≤ n) :
    let m0 := store m ids (fun _ : Fin (idSize * (n + 1)) => 0)
    (∀ x, ¬(ids ≤ x ∧ x < ids + 32 * (n + 1)) → copyIds m0 tbl ids k x = m x) ∧
      ∀ i ≤ n, ∀ j < 32, copyIds m0 tbl ids k (ids + 32 * i + j) =
        if i < k ∧ j < 28 then m (tbl + 28 * i + j) else 0 := by
  intro m0
  induction k with
  | zero =>
      have hzero : copyIds m0 tbl ids 0 = m0 := rfl
      refine ⟨fun x hx => ?_, fun i hi j hj => ?_⟩
      · rw [hzero]
        exact store_apply_of_not hx
      · have hinside : ids ≤ ids + 32 * i + j ∧ ids + 32 * i + j < ids + 32 * (n + 1) := by omega
        rw [hzero, if_neg (by omega)]
        exact store_apply hinside
  | succ k ih =>
      obtain ⟨hout, hin⟩ := ih (by omega)
      have hother : ∀ x, ¬(ids + 32 * k ≤ x ∧ x < ids + 32 * k + 28) →
          copyIds m0 tbl ids (k + 1) x = copyIds m0 tbl ids k x := fun x hx => store_apply_of_not hx
      have hcopy : ∀ j < 28, copyIds m0 tbl ids (k + 1) (ids + 32 * k + j) =
          copyIds m0 tbl ids k (tbl + 28 * k + j) := by
        intro j hj
        have hinside : ids + 32 * k ≤ ids + 32 * k + j ∧ ids + 32 * k + j < ids + 32 * k + 28 := by
          omega
        have h := store_apply (m := copyIds m0 tbl ids k)
          (f := (load (copyIds m0 tbl ids k) (tbl + 28 * k) : Fin 28 → UInt8)) hinside
        simp only [load_apply, Nat.add_sub_cancel_left] at h
        exact h
      refine ⟨fun x hx => ?_, fun i hi j hj => ?_⟩
      · rw [hother x (by omega), hout x hx]
      · by_cases hik : i = k ∧ j < 28
        · obtain ⟨rfl, hj'⟩ := hik
          have hsource : ¬(ids ≤ tbl + 28 * i + j ∧ tbl + 28 * i + j < ids + 32 * (n + 1)) := by
            rw [Nat.add_assoc]
            exact hapart.not_mem (by omega)
          rw [if_pos (by omega), hcopy j hj', hout _ hsource]
        · rw [hother _ (by omega), hin i hi j hj]
          by_cases hcopied : i < k ∧ j < 28
          · rw [if_pos hcopied, if_pos (by omega)]
          · rw [if_neg hcopied, if_neg (by omega)]

/-- The blob's table at `tbl` in `m`, and its translation at `ids` in `m'`. -/
structure Translation (m m' : KMem) (tbl ids n : Nat) : Prop where
  entries : ∀ i < n, idAt m' (ids + idSize * i) = ⟨tableAt m tbl i, 0⟩
  terminator : idAt m' (ids + idSize * n) = ⟨fun _ => 0, 0⟩
  /-- The blob's table is as before. -/
  table : ∀ i ≤ n, tableAt m' tbl i = tableAt m tbl i

/-- **The entries are copied, and a terminator is behind them.** -/
theorem translate_translation (hapart : Apart tbl (28 * (n + 1)) ids (32 * (n + 1))) :
    Translation m (translate m tbl ids n) tbl ids n := by
  obtain ⟨hout, hin⟩ := copyIds_apply (m := m) hapart (k := n) le_rfl
  rw [← translate] at hout hin
  have hzero : ∀ i ≤ n, ∀ j, j + 4 ≤ 32 → ¬(i < n ∧ j < 28) →
      wordAt (translate m tbl ids n) (ids + 32 * i + j) = 0 := by
    intro i hi j hj hbehind
    refine (wordAt_congr (w := fun _ => 0) (b := 0) fun k hk => ?_).trans rfl
    rw [Nat.add_assoc _ j, hin i hi (j + k) (by omega), if_neg (by omega)]
  refine ⟨fun i hi => ?_, ?_, fun i hi => ?_⟩
  · have hwords : blobIdAt (translate m tbl ids n) (ids + 32 * i) = blobIdAt m (tbl + 28 * i) := by
      refine blobIdAt_congr fun j hj => ?_
      have hj : j < 28 := hj
      rw [hin i hi.le j (by omega), if_pos ⟨hi, hj⟩]
    exact congrArg₂ PciDeviceId.mk hwords (hzero i hi.le 28 (by omega) (by omega))
  · refine congrArg₂ PciDeviceId.mk (funext fun j => ?_) (hzero n le_rfl 28 (by omega) (by omega))
    have hj := j.isLt
    exact hzero n le_rfl (4 * j) (by omega) (by omega)
  · refine blobIdAt_congr fun j hj => hout _ ?_
    simp only [blobIdSize] at hj ⊢
    rw [Nat.add_assoc]
    exact hapart.not_mem (by omega)

/-- **`build_id_table` makes the translated table.** -/
theorem buildIdTableAt_eq (s : State) (d : BlobDriver) (hd : d.table = tableAt m d.idTable)
    (mem : Option Nat) (hfresh : ∀ n ids, mem = some ids → countIds d.table 257 0 = some n →
      Apart d.idTable (28 * (n + 1)) ids (32 * (n + 1))) :
    ∃ m', buildIdTableAt m s d.idTable mem =
      ((buildIdTable s d mem).1, m', (buildIdTable s d mem).2) := by
  unfold buildIdTableAt buildIdTable
  rw [hd] at hfresh ⊢
  by_cases htbl : d.idTable = 0
  · exact ⟨m, by rw [if_pos htbl, if_pos htbl]⟩
  rw [if_neg htbl, if_neg htbl]
  cases hn : countIds (tableAt m d.idTable) 257 0 with
  | none => exact ⟨m, rfl⟩
  | some n =>
      cases mem with
      | none => exact ⟨m, rfl⟩
      | some ids =>
          refine ⟨translate m d.idTable ids n, ?_⟩
          have h := translate_translation (m := m) (hfresh n ids rfl hn)
          have htable :
              (List.range (n + 1)).map
              (fun i => idAt (translate m d.idTable ids n) (ids + idSize * i)) =
              translated (tableAt m d.idTable) n := by
            rw [List.range_succ, List.map_append, List.map_singleton, h.terminator, translated]
            exact congrArg (· ++ _) (List.map_congr_left fun i hi =>
              h.entries i (List.mem_range.mp hi))
          simp only [State.withIds, htable]

end

/-! ## The whole way -/

/-- The entry at an address of the kernel's table is the blob's of the same number. -/
theorem blobIdOf_entry {s : State} (d : BlobDriver) (ids : Nat) {i : Nat} (hi : i < s.nids)
    (hn : s.nids ≤ 256) (heq : s.idsPtr = ids) (hids : ids ≠ 0) :
    blobIdOf s d (ids + 32 * i) = (show Nat from d.idTable) + 28 * i := by
  have hindex : ((((ids + 32 * i : Nat) : Int) - ids) / idSize % 2 ^ 32).toNat = i := by
    simp only [idSize]
    omega
  unfold blobIdOf
  simp only [heq]
  rw [if_pos ⟨by omega, hids, by omega⟩]
  simp only [hindex, if_pos hi]
  rfl

/-- The table at an address has `n` entries, and then the terminator. -/
def Terminated (m : KMem) (tbl n : Nat) : Prop :=
  (∀ i < n, tableAt m tbl i ≠ fun _ => 0) ∧ tableAt m tbl n = fun _ => 0

/-- The blob's function is called once, with a device and an id, and its answer returned. -/
def Probes (r : Option (Int × List ProbeObs)) (ret : Int) (pdev id : Ptr) : Prop :=
  ∃ log, r = some (ret, log) ∧ log.filterMap ProbeObs.call = [(pdev, id)]

theorem probe_entry {s : State} {d : BlobDriver} (hd : s.blobDrv = some d) (hprobe : d.probe ≠ 0)
    (real : PciDev) (id : Nat) (sh : Ptr) (ret : Int) :
    Probes (wlPciProbeTramp s real id (some sh) ret) ret sh (blobIdOf s d id) := by
  simp only [wlPciProbeTramp, hd, if_neg hprobe]
  by_cases hret : ret ≠ 0
  · rw [if_pos hret]
    exact ⟨_, rfl, rfl⟩
  · rw [if_neg hret]
    exact ⟨_, rfl, rfl⟩

/-- **The blob gets its own entry.** A table of at most 256 entries is translated, and for each of
them that the kernel finds the blob is called with the address of its own; a table without a
terminator in its first 257 entries is refused. -/
theorem id_translation (m : KMem) {s : State} {d : BlobDriver} (hd : s.blobDrv = some d)
    (htbl : d.idTable ≠ 0) :
    (∀ n ≤ 256, Terminated m d.idTable n →
      ∀ ids ≠ 0, Apart d.idTable (28 * (n + 1)) ids (32 * (n + 1)) →
      ∃ s' m', buildIdTableAt m s d.idTable (some ids) = (s', m', 0) ∧ s'.idsPtr = ids ∧
        Translation m m' d.idTable ids n ∧
        (d.probe ≠ 0 → ∀ i < n, ∀ real sh ret,
          Probes (wlPciProbeTramp s' real (ids + idSize * i) (some sh) ret) ret sh
            (d.idTable + blobIdSize * i))) ∧
    ((∀ i ≤ 256, tableAt m d.idTable i ≠ fun _ => 0) →
      ∀ mem, buildIdTableAt m s d.idTable mem = (s, m, einval)) := by
  refine ⟨fun n hn hterm ids hids hapart => ?_, fun hnone mem => ?_⟩
  · refine ⟨s.withIds (translate m d.idTable ids n) ids n, translate m d.idTable ids n, ?_, rfl,
      translate_translation hapart, fun hprobe i hi real sh ret => ?_⟩
    · simp only [buildIdTableAt, if_neg htbl, countIds_eq hn hterm.1 hterm.2]
    · have hentry :=
        blobIdOf_entry (s := s.withIds (translate m d.idTable ids n) ids n) d ids hi hn rfl hids
      have hcall :=
        probe_entry (s := s.withIds (translate m d.idTable ids n) ids n) hd hprobe real
          (ids + 32 * i) sh
        ret
      rwa [hentry] at hcall
  · simp only [buildIdTableAt, if_neg htbl, countIds_none hnone]

/-- A driver whose table is at the address 4. -/
def tableDriver : BlobDriver := ⟨1, 4, fun _ _ => 0, 3, 4, 0⟩

/-- A memory with a table of `n` entries at the address 4. -/
def ones (n : Nat) : KMem := fun x => if x < 4 + 28 * n then 1 else 0

theorem ones_terminated (n : Nat) : Terminated (ones n) tableDriver.idTable n := by
  refine ⟨fun i hi hzero => ?_, funext fun j => ?_⟩
  · have hword := congrFun hzero 0
    have hoctets : ∀ k < 4, ones n (4 + 28 * i + 4 * 0 + k) = 1 := fun k hk => if_pos (by omega)
    have hone : wordAt (ones n) (4 + 28 * i + 4 * 0) = wordAt (fun _ => 1) 0 := wordAt_congr hoctets
    exact absurd (hone.symm.trans hword) (by decide)
  · have hoctets : ∀ k < 4, ones n (4 + 28 * n + 4 * j + k) = 0 := fun k hk => if_neg (by omega)
    exact (wordAt_congr (w := fun _ => 0) (b := 0) hoctets).trans rfl

/-- One entry. -/
theorem id_translation_one :
    ∃ s' m', buildIdTableAt (ones 1) { init with blobDrv := some tableDriver } 4 (some 64) =
      (s', m', 0) ∧
      Translation (ones 1) m' 4 64 1 ∧
      Probes (wlPciProbeTramp s' ⟨0, 0, 0x14e4, 0x4331, 0, 0, 0, 0⟩ 64 (some 8) 0) 0 8 4 := by
  have h := id_translation (ones 1) (s := { init with blobDrv := some tableDriver }) rfl (by decide)
  obtain ⟨s', m', hbuild, -, htranslation, hprobe⟩ :=
    h.1 1 (by decide) (ones_terminated 1) 64 (by decide) (by decide)
  exact ⟨s', m', hbuild, htranslation, hprobe (by decide) 0 (by decide) _ 8 0⟩

/-- **256 entries and the terminator**: there is no terminator in the first 256 entries, and the
table is not refused. -/
theorem terminator_behind_256 :
    (∀ i < 256, tableAt (ones 256) tableDriver.idTable i ≠ fun _ => 0) ∧
      (buildIdTableAt (ones 256) { init with blobDrv := some tableDriver } tableDriver.idTable
        (some 8192)).2.2
        = 0 := by
  obtain ⟨hentries, hend⟩ := ones_terminated 256
  refine ⟨hentries, ?_⟩
  have htbl : tableDriver.idTable ≠ 0 := by decide
  simp only [buildIdTableAt, if_neg htbl, countIds_eq le_rfl hentries hend]

end BroadcomWl.Shadow.Pci
