import BroadcomWl.Lib.Access
import BroadcomWl.Lib.Chain
import BroadcomWl.Lib.Run
import BroadcomWl.Nas.Proto

/-!
# The stations of eapd

`eapd` keeps a table of its own of the stations that it hears: an array of slots, threaded into hash
chains by the field `next`. Here are `sta_lookup` and `sta_remove`, with the links. A loop over a
chain that does not end is `none`, and so is the copy of an address from a null pointer.

The log records the addresses of the stations that are entered and removed.
-/

namespace BroadcomWl.Eapd

open BroadcomWl.Lib
open BroadcomWl.Nas (Bytes wpaEapolVersion)

/-- `EAPD_WKSP_MAX_SUPPLICANTS`. -/
def maxSupplicants : Nat := 128

/-- An index into `sta`. -/
abbrev Slot := Fin maxSupplicants

theorem maxSupplicants_pos : 0 < maxSupplicants := by decide

/-- `eapd_pae_state_t`. -/
inductive PaeState where
  | initialize_
  | identity
deriving Repr, DecidableEq

/-- `eapd_sta_mode_t`. -/
inductive StaMode where
  | unknow
  | wps
  | wpsEnr
  | ses
  | nas
  | nasPsk
  | wai
deriving Repr, DecidableEq

/-- `eapd_sta_t`, less its link. -/
structure Sta where
  used : Bool
  lastUse : Int
  ea : Bytes
  bssid : Bytes
  ifname : Bytes
  paeState : PaeState
  paeId : Nat
  mode : StaMode
  eapolVersion : UInt8
deriving Repr, DecidableEq

/-- After `memset`. -/
def Sta.zero : Sta :=
  { used := false, lastUse := 0, ea := List.replicate 6 0, bssid := List.replicate 6 0,
    ifname := List.replicate 16 0, paeState := .initialize_, paeId := 0, mode := .unknow,
    eapolVersion := 0 }

/-- The string in an array of octets: up to the first NUL. -/
def cstr (b : Bytes) : Bytes := b.takeWhile (· != 0)

/-- `EAPD_PAE_HASH`. -/
def paeHash (ea : Bytes) : Slot :=
  let h := (ea.getD 3 0 ^^^ ea.getD 4 0 ^^^ ea.getD 5 0).toNat % maxSupplicants
  ⟨h, Nat.mod_lt _ maxSupplicants_pos⟩

/-- `sta` and `sta_hashed` of an `eapd_wksp_t`, with the links of the stations. -/
structure StaTable where
  sta : Slot → Sta
  next : Slot → Option Slot
  staHashed : Slot → Option Slot
  log : List (Access Bytes)

/-- `eapd_lookup_mode_t`. -/
inductive LookupMode where
  | searchOnly
  | searchEnter
deriving Repr, DecidableEq

namespace StaTable

/-- The table of a new workspace. -/
def zero : StaTable := ⟨fun _ => Sta.zero, fun _ => none, fun _ => none, []⟩

def updSta (t : StaTable) (i : Slot) (f : Sta → Sta) : StaTable :=
  { t with sta := Function.update t.sta i (f (t.sta i)) }

/-- `sta_remove`. -/
def staRemove (t : StaTable) (i : Slot) : Option StaTable :=
  let hash := paeHash (t.sta i).ea
  (unlink maxSupplicants t.next (t.staHashed hash) i).map fun (next, head) =>
    StaTable.updSta
      { t with
        next := next
        staHashed := Function.update t.staHashed hash head
        log := if (t.sta i).used then .release (t.sta i).ea :: t.log else t.log }
      i fun s => { s with used := false }

/-- The search for a slot in `sta_lookup`: the first unused one, else the least recently used one
that is older than `oldest`; the flag says that it has to be evicted. -/
def scan (sta : Slot → Sta) : List Slot → Int → Option Slot → Option (Slot × Bool)
  | [], _, old => old.map fun i => (i, true)
  | i :: l, oldest, old =>
      if !(sta i).used then some (i, false)
      else if (sta i).lastUse < oldest then scan sta l (sta i).lastUse (some i)
      else scan sta l oldest old

/-- A slot of `sta_lookup` that was cleared and initialised. -/
def newSta (staEa bssidEa ifname : Bytes) (now : Int) : Sta :=
  { Sta.zero with
    ea := staEa, bssid := bssidEa, ifname := ifname, used := true, eapolVersion := wpaEapolVersion,
    paeState := .initialize_, mode := .unknow, lastUse := now }

/-- The end of `sta_lookup`: a slot is initialised and put at the head of its chain. -/
def enterSta (t : StaTable) (staEa bssidEa ifname : Bytes) (now : Int) (i : Slot) : StaTable :=
  let hash := paeHash staEa
  { sta := Function.update t.sta i (newSta staEa bssidEa ifname now)
    next := Function.update t.next i (t.staHashed hash)
    staHashed := Function.update t.staHashed hash (some i)
    log := .alloc staEa :: t.log }

/-- A known station in `sta_lookup`, which may have come in from a different interface. `psta` is
`wl_wlif_is_psta`. -/
def seenSta (psta : Bytes → Bool) (bssidEa : Option Bytes) (ifname : Bytes) (s : Sta) : Sta :=
  match bssidEa with
  | none => s
  | some bssid =>
      if !psta s.ifname && !psta ifname && (s.bssid != bssid || cstr s.ifname != cstr ifname) then
        { s with bssid := bssid, ifname := ifname, paeState := .initialize_, mode := .unknow }
      else s

/-- `sta_lookup`, at the time `now`. -/
def staLookup (t : StaTable) (psta : Bytes → Bool) (staEa : Bytes) (bssidEa : Option Bytes)
    (ifname : Bytes) (mode : LookupMode) (now : Int) : Option (StaTable × Option Slot) :=
  match walk t.next (fun i => (t.sta i).ea = staEa) maxSupplicants
      (t.staHashed (paeHash staEa)) with
  | none => none
  | some (some i) =>
      some (t.updSta i fun s => { seenSta psta bssidEa ifname s with lastUse := now }, some i)
  | some none =>
      match mode with
      | .searchOnly => some (t, none)
      | .searchEnter =>
          match scan t.sta (List.finRange maxSupplicants) now none with
          | none => some (t, none)
          | some (i, evict) =>
              match bssidEa with
              | none => none
              | some bssid =>
                  (if evict then t.staRemove i else some t).map fun t =>
                    (t.enterSta staEa bssid ifname now i, some i)

/-- What is done with the table. A null pointer for the address of the access point comes only with
a lookup that creates nothing. Between the calls other code writes to stations in use: anything
but the address, the link and the mark of use. -/
inductive Call where
  | search (psta : Bytes → Bool) (staEa : Bytes) (bssidEa : Option Bytes) (ifname : Bytes)
      (now : Int)
  | enter (psta : Bytes → Bool) (staEa bssidEa ifname : Bytes) (now : Int)
  | staRemove (i : Slot)
  | write (i : Slot) (s : Sta)

def step : Option StaTable → Call → Option StaTable
  | none, _ => none
  | some t, .search psta staEa bssidEa ifname now =>
      (t.staLookup psta staEa bssidEa ifname .searchOnly now).map Prod.fst
  | some t, .enter psta staEa bssidEa ifname now =>
      (t.staLookup psta staEa (some bssidEa) ifname .searchEnter now).map Prod.fst
  | some t, .staRemove i => t.staRemove i
  | some t, .write i s =>
      if (t.sta i).used then some (t.updSta i fun s' => { s with used := true, ea := s'.ea })
      else some t

end StaTable

end BroadcomWl.Eapd
