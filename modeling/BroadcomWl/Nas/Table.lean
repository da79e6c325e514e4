import BroadcomWl.Lib.Access
import BroadcomWl.Lib.Chain
import BroadcomWl.Lib.Run
import BroadcomWl.Nas.Station

/-!
# The station table, with its links

In `Station` a hash chain is a list of slots. In the source it is threaded through the slots by the
field `next`, a slot keeps its links when it is tossed, and it is cleared when it is used again.
Here are `lookup_sta`, `toss_sta` and `cleanup_sta` once more, with the links and nothing but the
table: what they tell the driver does not matter to it. A loop over a chain that does not end is
`none`.

The log records the addresses of the stations that are entered and tossed.
-/

namespace BroadcomWl.Nas

open BroadcomWl.Lib

/-- `sta` and `sta_hashed` of a `nas_t`, with the links of the stations. -/
structure Table where
  sta : Slot → Sta
  next : Slot → Option Slot
  staHashed : Slot → Option Slot
  log : List (Access Bytes)

namespace Table

variable (c : Ctx)

/-- After `bzero` of the whole `nas_t`. -/
def zero : Table := ⟨fun _ => Sta.zero, fun _ => none, fun _ => none, []⟩

def updSta (t : Table) (i : Slot) (f : Sta → Sta) : Table :=
  { t with sta := Function.update t.sta i (f (t.sta i)) }

/-- `wpa_stop_retx`. -/
def stopRetx (t : Table) (i : Slot) : Table :=
  t.updSta i fun s => { s with td := none, retxExceedHndlr := false }

/-- `toss_sta`. -/
def tossSta (t : Table) (i : Slot) : Option Table :=
  let t := t.stopRetx i
  let hash := paeHash (t.sta i).ea
  (unlink maxSupplicants t.next (t.staHashed hash) i).map fun (next, head) =>
    Table.updSta
      { t with
        next := next
        staHashed := Function.update t.staHashed hash head
        log := if (t.sta i).used then .release (t.sta i).ea :: t.log else t.log }
      i fun s => { s with used := false }

/-- The end of `cleanup_sta`. -/
def cleanupTail (t : Table) (i : Slot) (auth : Bool) : Option Table :=
  let t := t.stopRetx i
  let s := t.sta i
  if has s.mode wpa2 && s.pae.state = .authenticated && s.pae.ssnto != 0 then
    some (t.updSta i fun s => { s with state := .ptkstart })
  else if !auth then t.tossSta i
  else some t

/-- `cleanup_sta`. -/
def cleanupSta (t : Table) (i : Slot) (driverSignal : Bool) : Option Table :=
  let auth := c.cfg.wds && c.cfg.role = .authenticator
  if auth && !driverSignal then
    (t.updSta i fun s => { s with state := .disconnected }).cleanupTail i auth
  else t.cleanupTail i auth

/-- The search for a slot in `lookup_sta`: the first unused one, else the least recently used one
that is older than `oldest`; the flag says that it has to be evicted. -/
def scan (sta : Slot → Sta) : List Slot → Nat → Option Slot → Option (Slot × Bool)
  | [], _, old => old.map fun i => (i, true)
  | i :: l, oldest, old =>
      if !(sta i).used then some (i, false)
      else if (sta i).lastUse < oldest then scan sta l (sta i).lastUse (some i)
      else scan sta l oldest old

/-- The end of `lookup_sta`: a slot is cleared, initialised and put at the head of its chain. -/
def enterSta (t : Table) (ea : Bytes) (now : Nat) (i : Slot) : Table :=
  let hash := paeHash ea
  { sta := Function.update t.sta i (newSta c ea now)
    next := Function.update t.next i (t.staHashed hash)
    staHashed := Function.update t.staHashed hash (some i)
    log := .alloc ea :: t.log }

/-- `lookup_sta`. With `enter` unset, no entry is created. -/
def lookupSta (t : Table) (ea : Bytes) (enter : Bool) (now : Nat) : Option (Table × Option Slot) :=
  match walk t.next (fun i => (t.sta i).ea = ea) maxSupplicants (t.staHashed (paeHash ea)) with
  | none => none
  | some (some i) => some (t.updSta i fun s => { s with lastUse := now }, some i)
  | some none =>
      if !enter then some (t, none)
      else
        match scan t.sta slots now none with
        | none => some (t, none)
        | some (i, evict) =>
            (if evict then t.tossSta i else some t).map fun t => (t.enterSta c ea now i, some i)

/-- What is done with the table. Between the calls of its own functions, other code writes to
stations in use: anything but the address, the link and the mark of use. -/
inductive Call where
  | lookupSta (ea : Bytes) (enter : Bool) (now : Nat)
  | tossSta (i : Slot)
  | cleanupSta (i : Slot) (driverSignal : Bool)
  | write (i : Slot) (s : Sta)

def step : Option Table → Call → Option Table
  | none, _ => none
  | some t, .lookupSta ea enter now => (t.lookupSta c ea enter now).map Prod.fst
  | some t, .tossSta i => t.tossSta i
  | some t, .cleanupSta i driverSignal => t.cleanupSta c i driverSignal
  | some t, .write i s =>
      if (t.sta i).used then some (t.updSta i fun s' => { s with used := true, ea := s'.ea })
      else some t

end Table

end BroadcomWl.Nas
