import Mathlib
import BroadcomWl.Lib.Run

/-!
# The timer shim

`wl_shadow_timer.c` keeps a timer of the running kernel beside each `timer_list` the blob owns
and translates the three entry points `init_timer_key`, `add_timer` and `del_timer` to it. The
kernel never sees the blob's structure; of it, the shim reads `expires`, `function` and `data`
and maintains `entry.next`, which is what the blob's inlined `timer_pending()` tests.

The shim takes `wl_timer_lock` around the map and the blob's structure only, and calls the
kernel's timer functions outside it. So a call is a sequence of atomic steps, and the steps of
different calls and of the expiry interleave. `Call` is a call in progress, named by the step it
takes next; `State.calls` holds all of them. The kernel's side of one timer is what it has
queued and how far the trampoline of an expired one has come: the kernel runs at most one
trampoline of a timer at a time.

Each arming of a kernel timer gets a number of its own, so that statements about a callback can
say which arming it is for.
-/

namespace BroadcomWl.Shadow.Timer

open BroadcomWl.Lib

/-- The address of one of the blob's timers. -/
abbrev Addr := Nat

/-- The address of a `struct wl_timer_map`. -/
abbrev MapPtr := Nat

/-! ## The data -/

/-- The fields of the blob's 2.6.36 `timer_list` that the shim touches. A `function` of 0 is
NULL. -/
structure BlobTimer where
  entryNext : Option MapPtr := none
  expires : Nat := 0
  function : Nat := 0
  data : Nat := 0
deriving Repr, DecidableEq, Inhabited

/-- How far `wl_timer_trampoline` has come for an arming the kernel has dequeued. -/
inductive Tramp where
  /-- Called by the kernel, not yet past its lock section. -/
  | entered (arming : Nat)
  /-- Past the lock section, about to call `fn(data)`. -/
  | calling (arming fn data : Nat)
  /-- The callback has been called. -/
  | called (arming : Nat)
deriving Repr, DecidableEq

/-- `struct wl_timer_map`, with the kernel's side of `real`. -/
structure TimerMap where
  blob : Addr := 0
  /-- The arming that is on the kernel's timer wheel. -/
  queued : Option Nat := none
  expires : Nat := 0
  running : Option Tramp := none
deriving Repr, DecidableEq, Inhabited

/-- A call of the shim in progress, at the step it takes next. -/
inductive Call where
  /-- `init_timer_key` on a mapped timer, before `timer_delete_sync`. -/
  | initDup (m : MapPtr)
  /-- The same, after `timer_delete_sync`. -/
  | initClear (m : MapPtr)
  /-- `init_timer_key` on an unmapped timer, before the new entry is hashed. -/
  | initFresh (t : Addr)
  /-- `add_timer`, before `timer_pending(&m->real)`. -/
  | addTest (m : MapPtr) (expires : Nat)
  /-- `add_timer`, before `mod_timer`. -/
  | addMod (m : MapPtr) (expires : Nat)
  /-- `add_timer`, before the kernel's `add_timer`. -/
  | addNew (m : MapPtr) (expires : Nat)
  /-- `del_timer`, before `timer_delete`, with the answer it is going to give. `arming` is what
  the call found: see `TimerMap.outstanding`. -/
  | delReal (m : MapPtr) (arming : Option Nat) (wasPending : Bool)
deriving Repr, DecidableEq

/-- What happens at the interfaces of the shim. -/
inductive Obs where
  /-- `del_timer` returned. -/
  | deleted (t : Addr) (arming : Option Nat) (answer : Bool)
  /-- The trampoline called the blob's callback. -/
  | called (t : Addr) (arming fn data : Nat)
deriving Repr, DecidableEq

structure State where
  /-- The blob's timers. -/
  mem : Addr → BlobTimer
  /-- `wl_timer_ht`, the newest entry first. -/
  ht : List MapPtr
  maps : MapPtr → TimerMap
  /-- The next address `kzalloc` returns. -/
  nextMap : MapPtr
  calls : List Call
  armings : Nat
  /-- The timers for which `init_timer_key` has returned. -/
  inited : List Addr
  log : List Obs

/-- The module has been loaded and no call was made yet. -/
def init : State where
  mem := fun _ => {}
  ht := []
  maps := fun _ => {}
  nextMap := 1
  calls := []
  armings := 0
  inited := []
  log := []

/-! ## Primitive changes -/

/-- `map_find`. -/
def State.mapFind (s : State) (t : Addr) : Option MapPtr :=
  s.ht.find? fun m => (s.maps m).blob = t

def State.updMap (s : State) (m : MapPtr) (f : TimerMap → TimerMap) : State :=
  { s with maps := Function.update s.maps m (f (s.maps m)) }

/-- `blob_set_pending`. -/
def State.setPending (s : State) (m : MapPtr) (pending : Bool) : State :=
  let t := (s.maps m).blob
  { s with
    mem := Function.update s.mem t
      { s.mem t with entryNext := if pending then some m else none } }

/-- A call moves on to its next step. -/
def State.advance (s : State) (c c' : Call) : State :=
  { s with calls := c' :: s.calls.erase c }

/-- A call returns. -/
def State.leave (s : State) (c : Call) : State :=
  { s with calls := s.calls.erase c }

/-- 2.6.36's `timer_pending()`, as the blob has it inlined. -/
def State.pending (s : State) (t : Addr) : Bool := (s.mem t).entryNext.isSome

/-- The arming that a caller of `del_timer` would expect to cancel: the one on the wheel, or one
that the kernel has dequeued without its trampoline having got the lock. -/
def TimerMap.outstanding (k : TimerMap) : Option Nat :=
  match k.queued, k.running with
  | some a, _ => some a
  | none, some (.entered a) => some a
  | none, _ => none

/-- The kernel puts a timer on the wheel: a new arming. -/
def State.arm (s : State) (m : MapPtr) (expires : Nat) : State :=
  { s.updMap m fun k => { k with queued := some s.armings, expires := expires } with
    armings := s.armings + 1 }

/-! ## The entry points: the first lock section of each -/

/-- `wl_shim_init_timer_key` up to the end of its first lock section. -/
def initTimerKey (s : State) (t : Addr) : State :=
  match s.mapFind t with
  | some dup => { s with calls := .initDup dup :: s.calls }
  | none => { s with calls := .initFresh t :: s.calls }

/-- `wl_shim_add_timer` up to the end of its lock section. -/
def addTimer (s : State) (t : Addr) : State :=
  match s.mapFind t with
  | some m =>
      let s' := s.setPending m true
      { s' with calls := .addTest m (s.mem t).expires :: s'.calls }
  | none => s

/-- `wl_shim_del_timer` up to the end of its lock section. -/
def delTimer (s : State) (t : Addr) : State :=
  match s.mapFind t with
  | some m =>
      let s' := s.setPending m false
      { s' with calls := .delReal m (s.maps m).outstanding (s.pending t) :: s'.calls }
  | none => { s with log := .deleted t none false :: s.log }

/-! ## The later steps of a call -/

/-- The step that a call takes next. `ok` is what `kzalloc` answers. -/
def nextStep (s : State) (c : Call) (ok : Bool) : State :=
  match c with
  | .initDup m =>
      -- `timer_delete_sync` returns only when no trampoline of the timer is running
      if (s.maps m).running.isSome then s
      else (s.updMap m fun k => { k with queued := none }).advance c (.initClear m)
  | .initClear m =>
      let s' := (s.setPending m false).leave c
      { s' with inited := (s.maps m).blob :: s'.inited }
  | .initFresh t =>
      if ok then
        let m := s.nextMap
        let s' := ({ s with maps := Function.update s.maps m { blob := t } }).setPending m false
        { s'.leave c with ht := m :: s.ht, nextMap := m + 1, inited := t :: s.inited }
      else
        { s.leave c with inited := t :: s.inited }
  | .addTest m expires =>
      if (s.maps m).queued.isSome then s.advance c (.addMod m expires)
      else s.advance c (.addNew m expires)
  | .addMod m expires => (s.arm m expires).leave c
  | .addNew m expires =>
      -- the kernel's `add_timer` warns about a queued timer and leaves it on the wheel
      if (s.maps m).queued.isSome then
        (s.updMap m fun k => { k with expires := expires }).leave c
      else (s.arm m expires).leave c
  | .delReal m arming wasPending =>
      let s' := (s.updMap m fun k => { k with queued := none }).leave c
      { s' with log := .deleted (s.maps m).blob arming wasPending :: s'.log }

/-! ## The expiry of a timer -/

/-- The kernel takes an expired timer off the wheel and calls the trampoline. -/
def expire (s : State) (m : MapPtr) : State :=
  match (s.maps m).queued, (s.maps m).running with
  | some a, none => s.updMap m fun k => { k with queued := none, running := some (.entered a) }
  | _, _ => s

/-- The trampoline's lock section, its call of the callback, and its return to the kernel. -/
def trampoline (s : State) (m : MapPtr) : State :=
  match (s.maps m).running with
  | some (.entered a) =>
      let b := s.mem (s.maps m).blob
      (s.setPending m false).updMap m fun k =>
        { k with running := some (.calling a b.function b.data) }
  | some (.calling a fn data) =>
      let s' := s.updMap m fun k => { k with running := some (.called a) }
      if fn ≠ 0 then { s' with log := .called (s.maps m).blob a fn data :: s'.log } else s'
  | some (.called _) => s.updMap m fun k => { k with running := none }
  | none => s

/-! ## The system -/

/-- One atomic step of the system. -/
inductive Event where
  | initTimerKey (t : Addr)
  | addTimer (t : Addr)
  | delTimer (t : Addr)
  /-- A call in progress takes its next step. -/
  | next (c : Call) (ok : Bool)
  | expire (m : MapPtr)
  | trampoline (m : MapPtr)
  /-- The blob writes the fields of its timer that it owns. -/
  | write (t : Addr) (expires function data : Nat)
deriving Repr, DecidableEq

def step (s : State) : Event → State
  | .initTimerKey t => initTimerKey s t
  | .addTimer t => addTimer s t
  | .delTimer t => delTimer s t
  | .next c ok => if c ∈ s.calls then nextStep s c ok else s
  | .expire m => expire s m
  | .trampoline m => trampoline s m
  | .write t expires function data =>
      { s with
        mem := Function.update s.mem t
          { s.mem t with expires := expires, function := function, data := data } }

end BroadcomWl.Shadow.Timer
