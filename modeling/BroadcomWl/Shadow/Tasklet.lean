import Mathlib
import BroadcomWl.Lib.Run

/-!
# The tasklet shim

`wl_shadow_tasklet.c` keeps a tasklet of the running kernel beside each `tasklet_struct` of the
blob, as the timer shim does for timers. One thing is different: `tasklet_schedule()` is inlined
in the blob. It sets the SCHED bit in the blob's own structure and calls `__tasklet_schedule`,
the shim's entry point, only if the bit was clear. So the shim has to clear the bit whenever the
tasklet runs, and a bit that is left set without a pending tasklet stops the driver's bottom half
for good.

A call is a sequence of atomic steps: a lock section, a bit operation, or a call of the kernel.
`Call` is a call in progress, named by the step it takes next.
-/

namespace BroadcomWl.Shadow.Tasklet

open BroadcomWl.Lib

/-- The address of one of the blob's tasklets. -/
abbrev Addr := Nat

/-- The address of a `struct wl_tasklet_map`. -/
abbrev MapPtr := Nat

/-! ## The data -/

/-- How far the kernel is with running a tasklet. -/
inductive Phase where
  /-- The kernel has cleared its own SCHED bit and called `wl_tasklet_tramp`. -/
  | entered
  /-- The trampoline has cleared the blob's SCHED bit. -/
  | cleared
  /-- The handler has been called. -/
  | handled
deriving Repr, DecidableEq

/-- `struct wl_tasklet_map`, with the kernel's side of `real`. A `func` of 0 is NULL. -/
structure TaskletMap where
  blob : Addr := 0
  func : Nat := 0
  data : Nat := 0
  /-- `real` is scheduled and has not been started. -/
  pending : Bool := false
  running : Option Phase := none
deriving Repr, DecidableEq, Inhabited

/-- A call of the shim in progress, at the step it takes next. -/
inductive Call where
  /-- `tasklet_init` on a mapped tasklet, before `clear_bit`. -/
  | initClear (t : Addr)
  /-- `tasklet_init` on an unmapped tasklet, before `kzalloc` and `clear_bit`. -/
  | initFresh (t : Addr) (func data : Nat)
  /-- The same, before `hash_add`. -/
  | initPublish (m : MapPtr)
  /-- `__tasklet_schedule`, before its lookup. -/
  | schedule (t : Addr)
  /-- `__tasklet_schedule`, before the kernel's `tasklet_schedule`. -/
  | scheduleReal (m : MapPtr)
  /-- `tasklet_kill`, in the kernel's `tasklet_kill`. -/
  | killReal (m : MapPtr)
  /-- `tasklet_kill`, before `clear_bit` and `kfree`. -/
  | killClear (m : MapPtr)
deriving Repr, DecidableEq

/-- A run of the tasklet `t`: the handler it called, if any, and the one last given to
`tasklet_init` at that moment. -/
structure Ran where
  t : Addr
  called : Option (Nat × Nat)
  given : Option (Nat × Nat)
deriving Repr, DecidableEq

structure State where
  /-- The SCHED bit in the blob's tasklets. -/
  sched : Addr → Bool
  /-- `wl_tasklet_ht`, the newest entry first. -/
  ht : List MapPtr
  maps : MapPtr → TaskletMap
  /-- The next address `kzalloc` returns. -/
  nextMap : MapPtr
  calls : List Call
  /-- The `func` and `data` last given to `tasklet_init`. -/
  given : Addr → Option (Nat × Nat)
  log : List Ran

/-- The module has been loaded and no call was made yet. -/
def init : State where
  sched := fun _ => false
  ht := []
  maps := fun _ => {}
  nextMap := 1
  calls := []
  given := fun _ => none
  log := []

/-! ## Primitive changes -/

/-- `map_find`. -/
def State.mapFind (s : State) (t : Addr) : Option MapPtr :=
  s.ht.find? fun m => (s.maps m).blob = t

def State.updMap (s : State) (m : MapPtr) (f : TaskletMap → TaskletMap) : State :=
  { s with maps := Function.update s.maps m (f (s.maps m)) }

/-- `clear_bit(TASKLET_STATE_SCHED, blob_state(t))`. -/
def State.clearBit (s : State) (t : Addr) : State :=
  { s with sched := Function.update s.sched t false }

/-- A call moves on to its next step. -/
def State.advance (s : State) (c c' : Call) : State :=
  { s with calls := c' :: s.calls.erase c }

/-- A call returns. -/
def State.leave (s : State) (c : Call) : State :=
  { s with calls := s.calls.erase c }

/-! ## The entry points -/

/-- The blob's inlined `tasklet_schedule()`. -/
def blobSchedule (s : State) (t : Addr) : State :=
  if s.sched t then s
  else { s with sched := Function.update s.sched t true, calls := .schedule t :: s.calls }

/-- `wl_shim_tasklet_init` up to the end of its first lock section. -/
def taskletInit (s : State) (t : Addr) (func data : Nat) : State :=
  if t = 0 then s
  else
    match s.mapFind t with
    | some dup =>
        { s.updMap dup fun k => { k with func := func, data := data } with
          given := Function.update s.given t (some (func, data))
          calls := .initClear t :: s.calls }
    | none =>
        { s with
          given := Function.update s.given t (some (func, data))
          calls := .initFresh t func data :: s.calls }

/-- `wl_shim_tasklet_kill` up to the end of its lock section. -/
def taskletKill (s : State) (t : Addr) : State :=
  match s.mapFind t with
  | some m => { s with ht := s.ht.filter (· ≠ m), calls := .killReal m :: s.calls }
  | none => s

/-- The step that a call takes next. `ok` is what `kzalloc` answers. -/
def nextStep (s : State) (c : Call) (ok : Bool) : State :=
  match c with
  | .initClear t => (s.clearBit t).leave c
  | .initFresh t func data =>
      if ok then
        let m := s.nextMap
        { (s.clearBit t).advance c (.initPublish m) with
          maps := Function.update s.maps m { blob := t, func := func, data := data }
          nextMap := m + 1 }
      else s.leave c
  | .initPublish m => { s.leave c with ht := m :: s.ht }
  | .schedule t =>
      match s.mapFind t with
      | some m => s.advance c (.scheduleReal m)
      | none => s.leave c
  | .scheduleReal m => (s.updMap m fun k => { k with pending := true }).leave c
  | .killReal m =>
      -- the kernel's `tasklet_kill` waits for the tasklet to be neither scheduled nor running
      if (s.maps m).pending || (s.maps m).running.isSome then s else s.advance c (.killClear m)
  | .killClear m => (s.clearBit (s.maps m).blob).leave c

/-! ## The execution of a tasklet -/

/-- The kernel starts a scheduled tasklet. -/
def softirq (s : State) (m : MapPtr) : State :=
  if (s.maps m).pending && (s.maps m).running.isNone then
    s.updMap m fun k => { k with pending := false, running := some .entered }
  else s

/-- `wl_tasklet_tramp`: it clears the blob's bit, calls the handler, and returns. The source reads
`func` and `data` without the lock; here the two reads and the call are one step, so that no
`tasklet_init` falls in between. -/
def tramp (s : State) (m : MapPtr) : State :=
  let k := s.maps m
  match k.running with
  | some .entered => (s.clearBit k.blob).updMap m fun k => { k with running := some .cleared }
  | some .cleared =>
      let called := if k.func ≠ 0 then some (k.func, k.data) else none
      { s.updMap m fun k => { k with running := some .handled } with
        log := ⟨k.blob, called, s.given k.blob⟩ :: s.log }
  | some .handled => s.updMap m fun k => { k with running := none }
  | none => s

/-! ## The system -/

/-- One atomic step of the system. -/
inductive Event where
  /-- The blob's inlined `tasklet_schedule()`. -/
  | blobSchedule (t : Addr)
  /-- A call of `__tasklet_schedule` that does not come from the inlined function. -/
  | callSchedule (t : Addr)
  | taskletInit (t : Addr) (func data : Nat)
  | taskletKill (t : Addr)
  /-- A call in progress takes its next step. -/
  | next (c : Call) (ok : Bool)
  | softirq (m : MapPtr)
  | tramp (m : MapPtr)
deriving Repr, DecidableEq

def step (s : State) : Event → State
  | .blobSchedule t => blobSchedule s t
  | .callSchedule t => { s with calls := .schedule t :: s.calls }
  | .taskletInit t func data => taskletInit s t func data
  | .taskletKill t => taskletKill s t
  | .next c ok => if c ∈ s.calls then nextStep s c ok else s
  | .softirq m => softirq s m
  | .tramp m => tramp s m

end BroadcomWl.Shadow.Tasklet
