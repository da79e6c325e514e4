import Mathlib
import BroadcomWl.Lib.Run

/-!
# The PCI driver

`wl_shadow_pci.c` registers the blob's PCI driver with the kernel: it copies the blob's table of
device ids into the kernel's layout and fills a `struct pci_driver` of its own, whose functions are
trampolines. There is one blob, so one static registration `wl_pci` is enough.

The allocator and `__pci_register_driver` are the kernel's: their answers come with the events. What
the kernel gets to see, and what the blob gets back, are the observations of a call.

**`failed_registration_iff`.** A registration that fails leaves `wl_pci` as it was exactly if it
fails before the driver is filled in, or fills in what is there already; and it can be noticed later
exactly if it was the first to set the function for the shutdown. -/

namespace BroadcomWl.Shadow.Pci

open BroadcomWl.Lib

/-- A kernel address; 0 is NULL. -/
abbrev Ptr := Nat

/-! ## The data -/

/-- An entry of the blob's table: `WL236_PCI_DEVICE_ID_SIZEOF` octets, as words. -/
abbrev BlobId := Fin 7 → UInt32

/-- `struct pci_device_id`: the same words, and `override_only`. -/
structure PciDeviceId where
  words : BlobId
  overrideOnly : UInt32
  deriving DecidableEq

/-- The blob's `struct pci_driver`, with what stands at its id table. -/
structure BlobDriver where
  name : Ptr
  idTable : Ptr
  table : Nat → BlobId
  probe : Ptr
  remove : Ptr
  shutdown : Ptr

/-- The fields of `wl_pci.real` that the shim sets. A function is set if it is the trampoline, and
else NULL. -/
structure RealDriver where
  name : Ptr
  idTable : Ptr
  probe : Bool
  remove : Bool
  shutdown : Bool
  deriving DecidableEq

/-- A translated table. -/
structure IdTable where
  ptr : Ptr
  entries : List PciDeviceId
  deriving DecidableEq

/-- `wl_pci`. -/
structure State where
  blobDrv : Option BlobDriver
  real : RealDriver
  ids : Option IdTable
  nids : Nat

/-- The module has been loaded. -/
def init : State := ⟨none, ⟨0, 0, false, false, false⟩, none, 0⟩

def ebusy : Int := -16
def einval : Int := -22
def enomem : Int := -12

/-- What is seen from outside. -/
inductive Obs
  | returned (err : Int)
  /-- `__pci_register_driver` is called with the driver and the table. -/
  | registered (real : RealDriver) (ids : Option IdTable)
  /-- `pci_unregister_driver`. -/
  | unregistered (real : RealDriver)
  | freed (p : Ptr)
  deriving DecidableEq

/-! ## The functions -/

/-- The entries before the terminator, which is an all-zero one. -/
def countIds (t : Nat → BlobId) : Nat → Nat → Option Nat
  | 0, _ => none
  | fuel + 1, n =>
    if t n = fun _ => 0 then some n
    else if 256 < n + 1 then none
    else countIds t fuel (n + 1)

/-- The real table: the entries copied, and a terminator that `kcalloc` leaves zeroed. -/
def translated (t : Nat → BlobId) (n : Nat) : List PciDeviceId :=
  (List.range n).map (fun i => ⟨t i, 0⟩) ++ [⟨fun _ => 0, 0⟩]

/-- `build_id_table`; `mem` is what `kcalloc` returns. -/
def buildIdTable (s : State) (drv : BlobDriver) (mem : Option Ptr) : State × Int :=
  if drv.idTable = 0 then (s, einval)
  else
    match countIds drv.table 257 0 with
    | none => (s, einval)
    | some n =>
      match mem with
      | none => ({ s with ids := none }, enomem)
      | some p => ({ s with ids := some ⟨p, translated drv.table n⟩, nids := n }, 0)

/-- `kfree(wl_pci.ids)`; freeing NULL is nothing. -/
def freeIds (s : State) : List Obs :=
  match s.ids with
  | none => []
  | some t => [.freed t.ptr]

/-- The address in `wl_pci.ids`. -/
def State.idsPtr (s : State) : Ptr :=
  match s.ids with
  | none => 0
  | some t => t.ptr

/-- `wl_pci.real` is filled in. -/
def fillReal (s : State) (drv : BlobDriver) : State :=
  { s with real := ⟨drv.name, s.idsPtr, true, true, s.real.shutdown || drv.shutdown != 0⟩ }

/-- `wl_shim___pci_register_driver`; `mem` is what `kcalloc` returns, and `err` what the kernel's
function returns. -/
def register (s : State) (drv : Option BlobDriver) (mem : Option Ptr) (err : Int) :
    State × List Obs :=
  if s.blobDrv.isSome then (s, [.returned ebusy])
  else
    match drv with
    | none => (s, [.returned einval])
    | some d =>
      let (s1, e) := buildIdTable { s with blobDrv := some d } d mem
      if e ≠ 0 then ({ s1 with blobDrv := none }, [.returned e])
      else
        let s2 := fillReal s1 d
        if err ≠ 0 then
          ({ s2 with ids := none, blobDrv := none },
            .registered s2.real s2.ids :: freeIds s2 ++ [.returned err])
        else (s2, [.registered s2.real s2.ids, .returned err])

/-- `wl_shim_pci_unregister_driver`. -/
def unregister (s : State) : State × List Obs :=
  if s.blobDrv.isNone then (s, [])
  else ({ s with ids := none, nids := 0, blobDrv := none }, .unregistered s.real :: freeIds s)

/-- `wl_shadow_pci_exit`. -/
def exit (s : State) : State × List Obs := ({ s with ids := none, blobDrv := none }, freeIds s)

inductive Event
  | register (drv : Option BlobDriver) (mem : Option Ptr) (err : Int)
  | unregister
  | exit

def call (s : State) : Event → State × List Obs
  | .register drv mem err => register s drv mem err
  | .unregister => unregister s
  | .exit => exit s

def step (s : State) (e : Event) : State := (call s e).1

/-- What is observed of a sequence of calls. -/
def observe (s : State) : List Event → List (List Obs)
  | [] => []
  | e :: es => (call s e).2 :: observe (step s e) es

/-! ## What a registration does -/

/-- The driver as it is filled in. -/
def filled (s : State) (d : BlobDriver) (p : Ptr) : RealDriver :=
  ⟨d.name, p, true, true, s.real.shutdown || d.shutdown != 0⟩

/-- The registration gets as far as the kernel, with a table of `n` entries at `p`. -/
structure AsksKernel (s : State) (drv : Option BlobDriver) (mem : Option Ptr)
    (d : BlobDriver) (n : Nat) (p : Ptr) : Prop where
  idle : s.blobDrv = none
  drv : drv = some d
  idTable : d.idTable ≠ 0
  count : countIds d.table 257 0 = some n
  mem : mem = some p

/-- The ways a registration can go. -/
inductive Registers (s : State) (drv : Option BlobDriver) (mem : Option Ptr) (err : Int) :
    State × List Obs → Prop
  | refused (e : Int) (he : e ≠ 0) (hno : ∀ d n p, ¬AsksKernel s drv mem d n p) :
      Registers s drv mem err (s, [.returned e])
  | failed {d : BlobDriver} {n : Nat} {p : Ptr} (h : AsksKernel s drv mem d n p) (herr : err ≠ 0) :
      Registers s drv mem err (⟨none, filled s d p, none, n⟩,
        [.registered (filled s d p) (some ⟨p, translated d.table n⟩), .freed p, .returned err])
  | done {d : BlobDriver} {n : Nat} {p : Ptr} (h : AsksKernel s drv mem d n p) (herr : err = 0) :
      Registers s drv mem err (⟨some d, filled s d p, some ⟨p, translated d.table n⟩, n⟩,
        [.registered (filled s d p) (some ⟨p, translated d.table n⟩), .returned err])

/-- Without a driver there is no table. -/
def Idle (s : State) : Prop := s.blobDrv = none → s.ids = none

theorem register_cases {s : State} (hs : Idle s) (drv : Option BlobDriver) (mem : Option Ptr)
    (err : Int) :
    Registers s drv mem err (register s drv mem err) := by
  unfold register
  by_cases hbusy : s.blobDrv.isSome
  · rw [if_pos hbusy]
    refine .refused ebusy (by decide) fun d n p h => ?_
    rw [h.idle] at hbusy
    cases hbusy
  rw [if_neg hbusy]
  have hnone : s.blobDrv = none := by simpa using hbusy
  have hids := hs hnone
  obtain ⟨blobDrv, real, ids, nids⟩ := s
  obtain rfl : blobDrv = none := hnone
  obtain rfl : ids = none := hids
  cases drv with
  | none =>
      refine .refused einval (by decide) fun d n p h => ?_
      cases h.drv
  | some d =>
      dsimp only [buildIdTable]
      by_cases htbl : d.idTable = 0
      · rw [if_pos htbl]
        refine .refused einval (by decide) fun d' n p h => ?_
        cases h.drv
        exact h.idTable htbl
      rw [if_neg htbl]
      cases hn : countIds d.table 257 0 with
      | none =>
          refine .refused einval (by decide) fun d' n p h => ?_
          cases h.drv
          cases hn.symm.trans h.count
      | some n =>
          cases mem with
          | none =>
              refine .refused enomem (by decide) fun d' n p h => ?_
              cases h.mem
          | some p =>
              have hask : AsksKernel ⟨none, real, none, nids⟩ (some d) (some p) d n p :=
                ⟨rfl, rfl, htbl, hn, rfl⟩
              dsimp only
              rw [if_neg (by simp)]
              by_cases herr : err ≠ 0
              · rw [if_pos herr]
                exact .failed hask herr
              · rw [if_neg herr]
                exact .done hask (not_not.mp herr)

theorem step_idle (s : State) (e : Event) (hs : Idle s) : Idle (step s e) := by
  cases e with
  | register drv mem err =>
      have h := register_cases hs drv mem err
      show Idle (register s drv mem err).1
      cases hr : register s drv mem err with
      | mk s' obs =>
          rw [hr] at h
          cases h with
          | refused e he hno => exact hs
          | failed h herr => exact fun _ => rfl
          | done h herr => exact fun hno => absurd hno (by simp)
  | unregister =>
      show Idle (unregister s).1
      unfold unregister
      split_ifs
      · exact hs
      · exact fun _ => rfl
  | exit => exact fun _ => rfl

theorem run_idle (es : List Event) : Idle (run step init es) :=
  run_kept step_idle es fun _ => rfl

/-! ## What can be noticed -/

/-- Nothing can be noticed of the difference: without a driver only the function for the shutdown
counts, since everything else is filled in before the kernel sees it. -/
inductive Alike : State → State → Prop
  | same (s : State) : Alike s s
  | idle {s t : State} (hs : s.blobDrv = none) (ht : t.blobDrv = none) (his : s.ids = none)
      (hit : t.ids = none) (h : s.real.shutdown = t.real.shutdown) : Alike s t

theorem Alike.call {s t : State} (h : Alike s t) (e : Event) :
    Alike (step s e) (step t e) ∧ (call s e).2 = (call t e).2 := by
  cases h with
  | same => exact ⟨.same _, rfl⟩
  | idle hs ht his hit h =>
      obtain ⟨blobDrv, real, ids, nids⟩ := s
      obtain ⟨blobDrv', real', ids', nids'⟩ := t
      obtain rfl : blobDrv = none := hs
      obtain rfl : blobDrv' = none := ht
      obtain rfl : ids = none := his
      obtain rfl : ids' = none := hit
      cases e with
      | register drv mem err =>
          show Alike (register _ drv mem err).1 (register _ drv mem err).1
            ∧ (register _ drv mem err).2 = (register _ drv mem err).2
          have hrest : ∀ obs : List Obs,
              Alike (⟨none, real, none, nids⟩, obs).1 (⟨none, real', none, nids'⟩, obs).1
              ∧ obs = obs := fun _ => ⟨.idle rfl rfl rfl rfl h, rfl⟩
          cases drv with
          | none => exact hrest _
          | some d =>
              dsimp only [register, buildIdTable, Option.isSome_none]
              rw [if_neg Bool.false_ne_true, if_neg Bool.false_ne_true]
              by_cases htbl : d.idTable = 0
              · rw [if_pos htbl, if_pos htbl]
                exact hrest _
              rw [if_neg htbl, if_neg htbl]
              cases hn : countIds d.table 257 0 with
              | none => exact hrest _
              | some n =>
                  cases mem with
                  | none => exact hrest _
                  | some p =>
                      have hfill : (fillReal ⟨some d, real, some ⟨p, translated d.table n⟩, n⟩ d)
                          = fillReal ⟨some d, real', some ⟨p, translated d.table n⟩, n⟩ d := by
                        have h' : real.shutdown = real'.shutdown := h
                        simp only [fillReal, h', State.idsPtr]
                      have hzero : ¬(0 : Int) ≠ 0 := by decide
                      dsimp only
                      simp only [if_neg hzero, hfill]
                      by_cases herr : err ≠ 0
                      · simp only [if_pos herr, and_true]
                        exact .same _
                      · simp only [if_neg herr, and_true]
                        exact .same _
      | unregister => exact ⟨.idle rfl rfl rfl rfl h, rfl⟩
      | exit => exact ⟨.idle rfl rfl rfl rfl h, rfl⟩

theorem Alike.observe {s t : State} (h : Alike s t) (es : List Event) :
    observe s es = observe t es := by
  induction es generalizing s t with
  | nil => rfl
  | cons e es ih =>
      obtain ⟨hnext, hobs⟩ := h.call e
      unfold Pci.observe
      rw [hobs, ih hnext]

/-- A driver without a function for the shutdown, and without ids. -/
def bareDriver : BlobDriver := ⟨0, 1, fun _ _ => 0, 0, 0, 0⟩

/-- Registering the bare driver shows whether the function for the shutdown is set. -/
theorem bareDriver_observed (s : State) (hs : s.blobDrv = none) :
    observe s [.register (some bareDriver) (some 1) 0]
      =
        [[.registered ⟨0, 1, true, true, s.real.shutdown⟩ (some ⟨1, [⟨fun _ => 0, 0⟩]⟩),
        .returned 0]] := by
  obtain ⟨blobDrv, real, ids, nids⟩ := s
  obtain rfl : blobDrv = none := hs
  cases hr : real.shutdown with
  | true =>
    simp [observe, call, register, buildIdTable, bareDriver, countIds, fillReal, State.idsPtr,
      translated, hr]
  | false =>
    simp [observe, call, register, buildIdTable, bareDriver, countIds, fillReal, State.idsPtr,
      translated, hr]

/-! ## Failed registrations -/

/-- What the registration fills in is there already, if it gets as far as that. -/
def AlreadyThere (s : State) (drv : Option BlobDriver) (mem : Option Ptr) : Prop :=
  ∀ d n p, AsksKernel s drv mem d n p → s.nids = n ∧ s.real = filled s d p

/-- The registration does not set the function for the shutdown, or it is set. -/
def NoNewShutdown (s : State) (drv : Option BlobDriver) (mem : Option Ptr) : Prop :=
  ∀ d n p, AsksKernel s drv mem d n p → d.shutdown = 0 ∨ s.real.shutdown = true

/-- The call returns an error. -/
def Fails (r : State × List Obs) : Prop := ∃ err, err ≠ 0 ∧ .returned err ∈ r.2

theorem AsksKernel.unique {s : State} {drv : Option BlobDriver} {mem : Option Ptr}
    {d d' : BlobDriver} {n n' : Nat} {p p' : Ptr} (h : AsksKernel s drv mem d n p)
    (h' : AsksKernel s drv mem d' n' p') :
    d = d' ∧ n = n' ∧ p = p' := by
  have hd := Option.some.inj (h.drv.symm.trans h'.drv)
  subst hd
  exact ⟨rfl, Option.some.inj (h.count.symm.trans h'.count),
    Option.some.inj (h.mem.symm.trans h'.mem)⟩

/-- **A failed registration** leaves everything as it was exactly if what it filled in was there
already; and it can be noticed later exactly if it set the function for the shutdown. -/
theorem failed_registration_iff (es : List Event) (drv : Option BlobDriver) (mem : Option Ptr)
    (err : Int) (hfail : Fails (register (run step init es) drv mem err)) :
    ((register (run step init es) drv mem err).1 = run step init es
        ↔ AlreadyThere (run step init es) drv mem)
      ∧
      ((∀ es', observe (register (run step init es) drv mem err).1 es' =
        observe (run step init es) es')
        ↔ NoNewShutdown (run step init es) drv mem) := by
  have hs := run_idle es
  generalize run step init es = s at hs hfail ⊢
  have h := register_cases hs drv mem err
  cases hr : register s drv mem err with
  | mk s' obs =>
      rw [hr] at h hfail
      cases h with
      | refused e he hno =>
          exact ⟨⟨fun _ d n p hask => absurd hask (hno d n p), fun _ => rfl⟩,
            ⟨fun _ d n p hask => absurd hask (hno d n p), fun _ _ => rfl⟩⟩
      | failed hask herr =>
          rename_i d n p
          have hids := hs hask.idle
          refine ⟨⟨fun heq d' n' p' hask' => ?_, fun hthere => ?_⟩,
            ⟨fun hobs d' n' p' hask' => ?_, fun hno => ?_⟩⟩
          · obtain ⟨rfl, rfl, rfl⟩ := hask.unique hask'
            exact ⟨congrArg State.nids heq.symm, congrArg State.real heq.symm⟩
          · obtain ⟨hn, hreal⟩ := hthere d n p hask
            obtain ⟨blobDrv, real, ids, nids⟩ := s
            obtain rfl : blobDrv = none := hask.idle
            obtain rfl : ids = none := hids
            obtain rfl : nids = n := hn
            exact congrArg (fun r => (⟨none, r, none, nids⟩ : State)) hreal.symm
          · obtain ⟨rfl, rfl, rfl⟩ := hask.unique hask'
            have h1 := hobs [.register (some bareDriver) (some 1) 0]
            rw [bareDriver_observed _ rfl, bareDriver_observed _ hask.idle] at h1
            have h2 : (s.real.shutdown || d.shutdown != 0) = s.real.shutdown := by
              simpa [filled] using h1
            by_cases hd : d.shutdown = 0
            · exact .inl hd
            · refine .inr ?_
              rw [← h2]
              simp [hd]
          · refine Alike.observe (.idle rfl hask.idle rfl hids ?_)
            show (s.real.shutdown || d.shutdown != 0) = s.real.shutdown
            rcases hno d n p hask with h0 | h1
            · simp [h0]
            · simp [h1]
      | done hask herr =>
          obtain ⟨e, he, hmem⟩ := hfail
          simp only [List.mem_cons, reduceCtorEq, Obs.returned.injEq, List.not_mem_nil, or_false,
            false_or] at hmem
          exact absurd (hmem.trans herr) he

/-- A driver with a function for the shutdown, and one id. -/
def wlDriver : BlobDriver :=
  ⟨1, 2, fun i => if i = 0 then fun _ => 1 else fun _ => 0, 3, 4, 5⟩

theorem wlDriver_fails : Fails (register (run step init []) (some wlDriver) (some 6) (-16)) :=
  ⟨-16, by decide, by decide⟩

theorem failed_registration_iff_first :
    ((register (run step init []) (some wlDriver) (some 6) (-16)).1 = run step init []
        ↔ AlreadyThere (run step init []) (some wlDriver) (some 6))
      ∧ ((∀ es', observe (register (run step init []) (some wlDriver) (some 6) (-16)).1 es'
          = observe (run step init []) es') ↔
            NoNewShutdown (run step init []) (some wlDriver) (some 6)) :=
  failed_registration_iff [] (some wlDriver) (some 6) (-16) wlDriver_fails

/-- **The first registration fails in the kernel**: the count and the driver stay, and a driver
without a function for the shutdown gets one from it. -/
theorem failed_registration_stays :
    (¬∀ es drv mem err, Fails (register (run step init es) drv mem err) →
      (register (run step init es) drv mem err).1 = run step init es)
    ∧ ¬∀ es drv mem err, Fails (register (run step init es) drv mem err) →
      ∀ es', observe (register (run step init es) drv mem err).1 es' =
        observe (run step init es) es' := by
  refine ⟨fun h => ?_, fun h => ?_⟩
  · have hcount := congrArg State.nids (h [] (some wlDriver) (some 6) (-16) wlDriver_fails)
    revert hcount
    decide
  · have hobs :=
      h [] (some wlDriver) (some 6) (-16) wlDriver_fails [.register (some bareDriver) (some 7) 0]
    revert hobs
    decide

end BroadcomWl.Shadow.Pci
