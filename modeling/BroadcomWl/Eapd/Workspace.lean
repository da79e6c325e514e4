import BroadcomWl.Eapd.Work

/-!
# The interfaces and sockets of eapd

Each application has control blocks, one for each bridge that its interfaces belong to. A control
block refers to a raw socket that receives the events of the driver on the bridge; the applications
share these sockets, and `inuseCount` counts the references. A block of `nas` has a second socket of
its own, for pre-authentication.

Here are the functions that open, share and close them: when `eapd` starts, when an interface comes
or goes while it runs, and when it ends. The log records which descriptors the kernel hands out,
which ones are put into the set for `select`, and which ones are closed. What the kernel answers is
a parameter, and so is the `Host`: the helpers that convert names, the functions on lists of names,
and the driver's answers. -/

namespace BroadcomWl.Eapd

open BroadcomWl.Lib
open BroadcomWl.Nas (Bytes)

/-! ## Data -/

/-- `EAPD_WKSP_MAX_NO_BRCM`. -/
def maxNoBrcm : Nat := 58

/-- An index into `brcmSocket`. -/
abbrev BrcmSlot := Fin maxNoBrcm

/-- `eapd_brcm_socket_t`, less the index of the interface, which is only handed to `bind`. -/
structure BrcmSocket where
  ifname : Bytes
  drvSocket : Int
  inuseCount : Nat
  flag : Nat
deriving Repr, DecidableEq

/-- After `memset`. -/
def BrcmSocket.zero : BrcmSocket := ⟨[], 0, 0, 0⟩

/-- `eapd_cb_t`. Of the `preauthSocket` only `drvSocket` is looked at. -/
structure Cb where
  ifname : Bytes
  brcmSocket : Option BrcmSlot
  preauth : Int
deriving Repr, DecidableEq

/-- `eapd_app_t`, less the event mask. -/
structure AppState where
  ifnames : List Bytes
  appSocket : Int
  cb : List Cb
deriving Repr, DecidableEq

/-- What the sockets are made of. -/
structure Sockets where
  brcmSocketCount : Nat
  brcmSocket : BrcmSlot → BrcmSocket
  /-- How many sockets the kernel has been asked for. -/
  asked : Nat
  log : List (Access Int)

/-- `eapd_wksp_t`, as far as interfaces and sockets are concerned. -/
structure Wksp where
  app : App → AppState
  difSocket : Int
  sockets : Sockets

/-- What the kernel answers when a socket is opened: a descriptor, and whether `ioctl` or
`setsockopt` and `bind` work on it. -/
structure Answer where
  fd : Option Nat
  configured : Bool
  bound : Bool
deriving Repr, DecidableEq

/-- The functions on lists of names, which are in `libshared`. An array has room for a number of
octets. -/
structure NameLists where
  findInList : List Bytes → Bytes → Bool
  /-- Whether the name is in the list then, and the list. -/
  addToList : Bytes → List Bytes → Nat → Bool × List Bytes
  removeFromList : Bytes → List Bytes → Nat → List Bytes
  /-- The names that `foreach` puts into `char name[IFNAMSIZ]`. -/
  foreachName : List Bytes → List Bytes

/-- What they are for. It is up to `add_to_list` for which names there is room. -/
structure NameLists.Laws (lists : NameLists) : Prop where
  find : ∀ l name, lists.findInList l name = true ↔ name ∈ l
  add_old : ∀ name l n, name ∈ l → lists.addToList name l n = (true, l)
  add_taken : ∀ name l n, name ∉ l → (lists.addToList name l n).1 = true →
    (lists.addToList name l n).2 = l ++ [name]
  add_refused : ∀ name l n, (lists.addToList name l n).1 = false → (lists.addToList name l n).2 = l
  remove : ∀ name l n, lists.removeFromList name l n = l.erase name
  foreach_short : ∀ l, (∀ name ∈ l, name.length < ifnamsiz) → lists.foreachName l = l

/-- Such functions: a name is taken if the names fit into the array, each with the blank or the zero
behind it. -/
def NameLists.fitting : NameLists where
  findInList l name := l.contains name
  addToList name l n :=
    if l.contains name then (true, l)
    else if ((l ++ [name]).map fun name => name.length + 1).sum ≤ n then (true, l ++ [name])
    else (false, l)
  removeFromList name l _ := l.erase name
  foreachName l := l.map fun name => name.take (ifnamsiz - 1)

theorem NameLists.fitting_laws : NameLists.fitting.Laws where
  find l name := List.contains_iff_mem
  add_old name l n hmem := if_pos (List.contains_iff_mem.mpr hmem)
  add_taken name l n hnot := by
    simp only [fitting, List.contains_iff_mem, if_neg hnot]
    split_ifs <;> simp
  add_refused name l n := by
    simp only [fitting]
    split_ifs <;> simp
  remove _ _ _ := rfl
  foreach_short l hshort := by
    unfold fitting
    dsimp only
    rw [List.map_congr_left (g := id), List.map_id]
    intro name hname
    exact List.take_of_length_le (Nat.le_sub_one_of_lt (hshort name hname))

/-- The helpers that convert names, the driver and the configuration, and whether `eapd` was built
with `BCMWPA2`. -/
structure Host where
  bcmwpa2 : Bool
  nvifnameToOsifname : Bytes → Option Bytes
  osifnameToNvifname : Bytes → Option Bytes
  wlProbe : Bytes → Bool
  getInstance : Bytes → Option Nat
  wlHwaddr : Bytes → Bytes
  isPsta : Bytes → Bool
  dpstaIfnames : List Bytes
  getIfnameByWlmac : Bytes → Bytes → Option Bytes
  malloc : Bool
  /-- `nas_app_enabled`, of the radio with this number. -/
  nasAppEnabled : Nat → Bool
  /-- `wl_iovar_setint` of `psta_allow_join` works. -/
  allowJoin : Bytes → Bool
  lists : NameLists

/-- `EAPD_CAP_SES`, `EAPD_CAP_NAS` and `EAPD_CAP_WPS`. -/
def App.cap : App → Nat
  | .ses => 0x1
  | .nas => 0x2
  | .wps => 0x4

/-- `eapd_wksp_alloc_workspace`. -/
def Wksp.alloc : Wksp :=
  { app := fun _ => ⟨[], -1, []⟩, difSocket := -1, sockets := ⟨0, fun _ => .zero, 0, []⟩ }

def Wksp.updApp (w : Wksp) (a : App) (f : AppState → AppState) : Wksp :=
  { w with app := Function.update w.app a (f (w.app a)) }

def Sockets.upd (s : Sockets) (i : BrcmSlot) (f : BrcmSocket → BrcmSocket) : Sockets :=
  { s with brcmSocket := Function.update s.brcmSocket i (f (s.brcmSocket i)) }

def Sockets.access (s : Sockets) (x : Access Int) : Sockets := { s with log := x :: s.log }

/-! ## Sockets -/

section

variable (k : Nat → Answer)

/-- `socket`, then `ioctl` or `setsockopt`, then `bind`; the descriptor is closed if one of them
fails. -/
def openSocket (s : Sockets) : Option Int × Sockets :=
  let a := k s.asked
  let s := { s with asked := s.asked + 1 }
  match a.fd with
  | none => (none, s)
  | some fd =>
    let s := s.access (.alloc fd)
    if a.configured && a.bound then (some fd, s) else (none, s.access (.release fd))

/-- What `drvSocket` or `appSocket` becomes. -/
def fdOf (fd : Option Int) : Int := fd.getD (-1)

/-- A descriptor is closed if it is one. -/
def closeFd (fd : Int) (s : Sockets) : Sockets := if 0 ≤ fd then s.access (.release fd) else s

/-- `eapd_brcm_open`. -/
def eapdBrcmOpen (i : BrcmSlot) (s : Sockets) : Option BrcmSlot × Sockets :=
  let (fd, s) := openSocket k s
  match fd with
  | none => (none, s.upd i fun b => { b with drvSocket := -1 })
  | some fd => (some i, s.upd i fun b => { b with drvSocket := fd, inuseCount := 1 })

/-- `eapd_find_brcm`. -/
def eapdFindBrcm (ifname : Bytes) (s : Sockets) : Option BrcmSlot :=
  (List.finRange maxNoBrcm).find? fun i =>
    decide (i.val < s.brcmSocketCount) && decide (0 < (s.brcmSocket i).inuseCount) &&
      (s.brcmSocket i).ifname == ifname

/-- The slot for a new socket: one that is not in use, or the next one. -/
def freeBrcm (s : Sockets) : Option (BrcmSlot × Sockets) :=
  match (List.finRange maxNoBrcm).find? fun i =>
      decide (i.val < s.brcmSocketCount) && (s.brcmSocket i).inuseCount == 0 with
  | some i => some (i, s)
  | none =>
    if h : s.brcmSocketCount < maxNoBrcm then
      some (⟨s.brcmSocketCount, h⟩, { s with brcmSocketCount := s.brcmSocketCount + 1 })
    else none

/-- `eapd_add_brcm`. -/
def eapdAddBrcm (ifname : Bytes) (s : Sockets) : Option BrcmSlot × Sockets :=
  match eapdFindBrcm ifname s with
  | some i => (some i, s.upd i fun b => { b with inuseCount := b.inuseCount + 1 })
  | none =>
    match freeBrcm s with
    | none => (none, s)
    | some (i, s) => eapdBrcmOpen k i (s.upd i fun _ => { BrcmSocket.zero with ifname := ifname })

/-- `eapd_del_brcm`. -/
def eapdDelBrcm (sock : BrcmSlot) (s : Sockets) : Sockets :=
  match eapdFindBrcm (s.brcmSocket sock).ifname s with
  | none => s
  | some i =>
    let s := s.upd i fun b => { b with inuseCount := b.inuseCount - 1 }
    if (s.brcmSocket i).inuseCount = 0 then
      (s.access (.release (s.brcmSocket i).drvSocket)).upd i fun b => { b with drvSocket := -1 }
    else s

/-- The sockets of a control block: the shared one, which gets the capability of the application,
and the one for pre-authentication if there is one. -/
def openBlock (cap : Nat) (preauth : Bool) (cb : Cb) (s : Sockets) : Bool × Cb × Sockets :=
  match eapdAddBrcm k cb.ifname s with
  | (none, s) => (false, { cb with brcmSocket := none }, s)
  | (some i, s) =>
    let s := s.upd i fun b => { b with flag := b.flag ||| cap }
    if preauth then
      let (fd, s) := openSocket k s
      (true, { cb with brcmSocket := some i, preauth := fdOf fd }, s)
    else (true, { cb with brcmSocket := some i }, s)

def closeBlock (preauth : Bool) (cb : Cb) (s : Sockets) : Sockets :=
  let s := cb.brcmSocket.elim s fun i => eapdDelBrcm i s
  if preauth then closeFd cb.preauth s else s

/-- The loop of `wps_app_init`, `nas_app_init` and `ses_app_init` over the control blocks. It stops
at a block for which there is no socket. -/
def openBlocks (cap : Nat) (preauth : Bool) : List Cb → Sockets → Bool × List Cb × Sockets
  | [], s => (true, [], s)
  | cb :: cbs, s =>
    match openBlock k cap preauth cb s with
    | (false, cb, s) => (false, cb :: cbs, s)
    | (true, cb, s) =>
      let (ok, cbs, s) := openBlocks cap preauth cbs s
      (ok, cb :: cbs, s)

/-! ## Start and end -/

/-- The application's socket. -/
def openAppSocket (a : App) (w : Wksp) : Bool × Wksp :=
  let (fd, s) := openSocket k w.sockets
  (fd.isSome, { w.updApp a fun st => { st with appSocket := fdOf fd } with sockets := s })

/-- `nas_app_init` and its siblings; only `nas` opens sockets for pre-authentication. -/
def appInit (a : App) (w : Wksp) : Bool × Wksp :=
  let w := w.updApp a fun st => { st with appSocket := -1 }
  if (w.app a).cb.isEmpty then (true, w)
  else
    let (ok, cbs, s) := openBlocks k a.cap (a = .nas) (w.app a).cb w.sockets
    let w := { w.updApp a fun st => { st with cb := cbs } with sockets := s }
    if ok then openAppSocket k a w else (false, w)

def wpsAppInit (w : Wksp) : Bool × Wksp := appInit k .wps w
def nasAppInit (w : Wksp) : Bool × Wksp := appInit k .nas w
def sesAppInit (w : Wksp) : Bool × Wksp := appInit k .ses w

/-- The socket for messages about interfaces that come and go. -/
def openDifSocket (w : Wksp) : Bool × Wksp :=
  let (fd, s) := openSocket k w.sockets
  (fd.isSome, { w with difSocket := fdOf fd, sockets := s })

/-- `eapd_wksp_init`. -/
def eapdWkspInit (w : Wksp) : Bool × Wksp :=
  match wpsAppInit k w with
  | (false, w) => (false, w)
  | (true, w) =>
    match nasAppInit k w with
    | (false, w) => (false, w)
    | (true, w) =>
      match sesAppInit k w with
      | (false, w) => (false, w)
      | (true, w) => openDifSocket k w

/-- `nas_app_deinit` and its siblings. The blocks are gone. -/
def appDeinit (a : App) (w : Wksp) : Wksp :=
  let s := (w.app a).cb.foldl (fun s cb => closeBlock (a = .nas) cb s) w.sockets
  let s := closeFd (w.app a).appSocket s
  { w.updApp a fun st => { st with cb := [], appSocket := -1 } with sockets := s }

def wpsAppDeinit (w : Wksp) : Wksp := appDeinit .wps w
def nasAppDeinit (w : Wksp) : Wksp := appDeinit .nas w
def sesAppDeinit (w : Wksp) : Wksp := appDeinit .ses w

/-- `eapd_wksp_cleanup`, up to where the workspace is freed. -/
def eapdWkspCleanup (w : Wksp) : Wksp :=
  let w := nasAppDeinit (sesAppDeinit (wpsAppDeinit w))
  { w with difSocket := -1, sockets := closeFd w.difSocket w.sockets }

end

/-! ## Interfaces -/

/-- `sizeof(app->ifnames)`, `IFNAMSIZ * EAPD_WKSP_MAX_NO_IFNAMES`. -/
def ifnamesSize : Nat := ifnamsiz * 66

/-- What `eapd_add_interface` finds out about an interface: the name in the configuration, which
must not be among the names that are there, and the name of the bridge. -/
def interfaceNames (h : Host) (ifname : Bytes) (ifnames : List Bytes) : Option (Bytes × Bytes) :=
  (h.nvifnameToOsifname ifname).bind fun osName =>
    if h.wlProbe osName && (h.getInstance osName).isSome then
      (h.osifnameToNvifname ifname).bind fun nvName =>
        if h.lists.findInList ifnames nvName then none
        else if h.isPsta osName ||
          h.lists.findInList h.dpstaIfnames ifname then some (nvName, ifname)
        else (h.getIfnameByWlmac (h.wlHwaddr osName) ifname).map fun lanifname =>
          (nvName, lanifname)
    else none

/-- `eapd_add_interface`. The block that it returns is the first one of the bridge, so the name of
the bridge stands for it. -/
def eapdAddInterface (h : Host) (ifname : Bytes) (mode : App) (w : Wksp) : Option Bytes × Wksp :=
  let app := w.app mode
  if mode = .ses && !app.cb.isEmpty then (none, w)
  else
    match interfaceNames h ifname app.ifnames with
    | none => (none, w)
    | some (nvName, lanifname) =>
      -- the answer of `add_to_list` is dropped
      let ifnames := (h.lists.addToList nvName app.ifnames ifnamesSize).2
      if app.cb.any fun cb => cb.ifname == lanifname then
        (some lanifname, w.updApp mode fun st => { st with ifnames := ifnames })
      else if h.malloc then
        (some lanifname, w.updApp mode fun st =>
          { st with ifnames := ifnames, cb := ⟨lanifname, none, 0⟩ :: st.cb })
      else (none, w)

/-- `nas_open_dif_sockets`. -/
def nasOpenDifSockets (k : Nat → Answer) (h : Host) (cb : Cb) (s : Sockets) : Bool × Cb × Sockets :=
  openBlock k App.nas.cap h.bcmwpa2 cb s

/-- `nas_close_dif_sockets`. -/
def nasCloseDifSockets (h : Host) (cb : Cb) (s : Sockets) : Sockets := closeBlock h.bcmwpa2 cb s

/-- `nas_open_dif_sockets` for the first block of this name. -/
def openNamed (k : Nat → Answer) (h : Host) (name : Bytes) :
    List Cb → Sockets → Bool × List Cb × Sockets
  | [], s => (false, [], s)
  | cb :: cbs, s =>
    if cb.ifname = name then
      let (ok, cb, s) := nasOpenDifSockets k h cb s
      (ok, cb :: cbs, s)
    else
      let (ok, cbs, s) := openNamed k h name cbs s
      (ok, cb :: cbs, s)

/-- `eapd_add_dif`; `event_init` never fails. -/
def eapdAddDif (k : Nat → Answer) (h : Host) (ifname : Bytes) (w : Wksp) : Bool × Wksp :=
  match h.nvifnameToOsifname ifname with
  | none => (false, w)
  | some osName =>
    if !h.wlProbe osName then (false, w)
    else
      match h.getInstance osName with
      | none => (false, w)
      | some unit =>
        if !h.nasAppEnabled unit then (false, w)
        else
          match eapdAddInterface h ifname .nas w with
          | (none, w) => (false, w)
          | (some name, w) =>
            let (ok, cbs, s) := openNamed k h name (w.app .nas).cb w.sockets
            let w := { w.updApp .nas fun st => { st with cb := cbs } with sockets := s }
            (ok && h.allowJoin ifname, w)

/-- `eapd_delete_dif`. -/
def eapdDeleteDif (h : Host) (ifname : Bytes) (w : Wksp) : Wksp :=
  match (w.app .nas).cb.find? fun cb => cb.ifname == ifname with
  | none => w
  | some cb =>
    let w :=
        { w.updApp .nas fun st => { st with cb := st.cb.eraseP fun cb => cb.ifname == ifname } with
      sockets := nasCloseDifSockets h cb w.sockets }
    match h.nvifnameToOsifname ifname with
    | none => w
    | some osName =>
      w.updApp .nas fun st =>
        { st with ifnames := h.lists.removeFromList osName st.ifnames ifnamesSize }

/-! ## The process -/

/-- The descriptors that `eapd_wksp_dispatch` puts into its set. -/
def selected (w : Wksp) : List Int :=
  ((List.finRange maxNoBrcm).filter fun i =>
      decide (i.val < w.sockets.brcmSocketCount) &&
        decide (0 < (w.sockets.brcmSocket i).inuseCount)).map
    (fun i => (w.sockets.brcmSocket i).drvSocket) ++
  ([(w.app .wps).appSocket, (w.app .ses).appSocket, (w.app .nas).appSocket] ++
    (w.app .nas).cb.map Cb.preauth ++ [w.difSocket]).filter fun fd => decide (0 ≤ fd)

/-- A message about an interface. -/
inductive Hotplug where
  | add (ifname : Bytes)
  | delete (ifname : Bytes)
deriving Repr, DecidableEq

inductive Phase where
  | config
  | running
  | exited
deriving Repr, DecidableEq

structure Proc where
  w : Wksp
  phase : Phase
  needStart : Bool
  /-- `EAPD_WKSP_FLAG_SHUTDOWN`. -/
  shutdown : Bool

/-- What happens to `eapd`. -/
inductive ProcEvent where
  /-- An interface of the command line, or of the automatic configuration. -/
  | addInterface (h : Host) (mode : App) (ifname : Bytes)
  /-- The configuration is complete; `daemon` may fail. -/
  | start (daemon : Bool)
  /-- A round of the main loop, with the message that comes on `difSocket`. -/
  | dispatch (msg : Option (Host × Hotplug))
  /-- `SIGTERM`. -/
  | term

def Proc.init : Proc := ⟨.alloc, .config, false, false⟩

def Proc.exit (p : Proc) : Proc := { p with w := eapdWkspCleanup p.w, phase := .exited }

/-- The set for `select` is filled. -/
def fdSet (w : Wksp) : Wksp :=
  { w with sockets := { w.sockets with log := (selected w).map .use ++ w.sockets.log } }

/-- What a message about an interface does, if there is a socket for such messages. -/
def hotplug (k : Nat → Answer) (msg : Option (Host × Hotplug)) (w : Wksp) : Wksp :=
  match msg with
  | none => w
  | some (h, .add ifname) => if 0 ≤ w.difSocket then (eapdAddDif k h ifname w).2 else w
  | some (h, .delete ifname) => if 0 ≤ w.difSocket then eapdDeleteDif h ifname w else w

/-- `eapd_wksp_dispatch`. -/
def eapdWkspDispatch (k : Nat → Answer) (msg : Option (Host × Hotplug)) (p : Proc) : Proc :=
  if (selected p.w).isEmpty then { p with w := fdSet p.w, shutdown := true }
  else { p with w := hotplug k msg (fdSet p.w) }

/-- `main` and `eapd_wksp_main_loop`. -/
def procStep (k : Nat → Answer) (p : Proc) : ProcEvent → Proc
  | .addInterface h mode ifname =>
    if p.phase = .config then
      let (name, w) := eapdAddInterface h ifname mode p.w
      { p with w := w, needStart := p.needStart || name.isSome }
    else p
  | .start daemon =>
    if p.phase = .config then
      if p.needStart then
        let (ok, w) := eapdWkspInit k p.w
        if ok && daemon then { p with w := w, phase := .running } else { p with w := w }.exit
      else p.exit
    else p
  | .dispatch msg =>
    if p.phase = .running then
      if p.shutdown then p.exit else eapdWkspDispatch k msg p
    else p
  | .term => if p.phase = .running then { p with shutdown := true } else p

/-! ## Rules -/

section

variable {w : Wksp} {s : Sockets} {k : Nat → Answer}

@[simp] theorem updApp_self (a : App) (f : AppState → AppState) :
    (w.updApp a f).app a = f (w.app a) :=
  Function.update_self a _ _

theorem updApp_of_ne {a b : App} (hne : b ≠ a) (f : AppState → AppState) :
    (w.updApp a f).app b = w.app b :=
  Function.update_of_ne hne _ _

theorem updApp_updApp (a : App) (f g : AppState → AppState) :
    (w.updApp a f).updApp a g = w.updApp a fun st => g (f st) := by
  simp only [Wksp.updApp, Function.update_idem, Function.update_self]

@[simp] theorem updApp_sockets (a : App) (f : AppState → AppState) :
    (w.updApp a f).sockets = w.sockets := rfl
@[simp] theorem updApp_difSocket (a : App) (f : AppState → AppState) :
    (w.updApp a f).difSocket = w.difSocket := rfl

@[simp] theorem upd_self (i : BrcmSlot) (f : BrcmSocket → BrcmSocket) :
    (s.upd i f).brcmSocket i = f (s.brcmSocket i) := Function.update_self i _ _

theorem upd_of_ne {i j : BrcmSlot} (hne : j ≠ i) (f : BrcmSocket → BrcmSocket) :
    (s.upd i f).brcmSocket j = s.brcmSocket j := Function.update_of_ne hne _ _

@[simp] theorem upd_count (i : BrcmSlot) (f : BrcmSocket → BrcmSocket) :
    (s.upd i f).brcmSocketCount = s.brcmSocketCount := rfl

@[simp] theorem upd_log (i : BrcmSlot) (f : BrcmSocket → BrcmSocket) :
    (s.upd i f).log = s.log := rfl
@[simp] theorem access_count (x : Access Int) :
    (s.access x).brcmSocketCount = s.brcmSocketCount := rfl
@[simp] theorem access_brcmSocket (x : Access Int) : (s.access x).brcmSocket = s.brcmSocket := rfl
@[simp] theorem access_log (x : Access Int) : (s.access x).log = x :: s.log := rfl

/-- The slot is one of those that are looked at, and in use. -/
def Sockets.Live (s : Sockets) (i : BrcmSlot) : Prop :=
  i.val < s.brcmSocketCount ∧ 0 < (s.brcmSocket i).inuseCount

instance (i : BrcmSlot) : Decidable (s.Live i) := inferInstanceAs (Decidable (_ ∧ _))

theorem eapdFindBrcm_some {ifname : Bytes} {i : BrcmSlot} (h : eapdFindBrcm ifname s = some i) :
    s.Live i ∧ (s.brcmSocket i).ifname = ifname := by
  have hi := List.find?_some h
  simpa [Sockets.Live, and_assoc] using hi

theorem eapdFindBrcm_none {ifname : Bytes} (h : eapdFindBrcm ifname s = none) {i : BrcmSlot}
    (hlive : s.Live i) :
    (s.brcmSocket i).ifname ≠ ifname := by
  have hi := List.find?_eq_none.mp h i (List.mem_finRange i)
  simp only [hlive.1, hlive.2, decide_true, Bool.true_and, beq_iff_eq] at hi
  exact hi

theorem freeBrcm_some {i : BrcmSlot} {s' : Sockets} (h : freeBrcm s = some (i, s')) :
    ¬s.Live i ∧ i.val < s'.brcmSocketCount ∧ s.brcmSocketCount ≤ s'.brcmSocketCount ∧
      s' = { s with brcmSocketCount := s'.brcmSocketCount } ∧ ∀ j, j ≠ i →
      (s'.Live j ↔ s.Live j) := by
  unfold freeBrcm at h
  split at h
  · rename_i i' hfind
    cases h
    have hi := List.find?_some hfind
    simp only [Bool.and_eq_true, decide_eq_true_eq, beq_iff_eq] at hi
    exact ⟨fun hlive => absurd hi.2 hlive.2.ne', hi.1, le_rfl, rfl, fun _ _ => Iff.rfl⟩
  · split_ifs at h with hroom
    cases h
    refine ⟨fun hlive => absurd hlive.1 (lt_irrefl _), Nat.lt_succ_self _, Nat.le_succ _, rfl,
      fun j hj => ?_⟩
    have hne : j.val ≠ s.brcmSocketCount := fun heq => hj (Fin.ext heq)
    unfold Sockets.Live
    dsimp only
    constructor
    · rintro ⟨hlt, hpos⟩
      exact ⟨by omega, hpos⟩
    · rintro ⟨hlt, hpos⟩
      exact ⟨by omega, hpos⟩

theorem freeBrcm_none : freeBrcm s = none ↔
    (List.finRange maxNoBrcm).find? (fun i =>
        decide (i.val < s.brcmSocketCount) && (s.brcmSocket i).inuseCount == 0) = none ∧
      maxNoBrcm ≤ s.brcmSocketCount := by
  unfold freeBrcm
  split
  · rename_i hfind
    simp [hfind]
  · rename_i hfind
    split_ifs with hroom
    · simp [hroom]
    · simp [hfind, not_lt.mp hroom]

/-- The answer is no socket. -/
def Answer.Fails (a : Answer) : Prop := a.fd = none ∨ (a.configured && a.bound) = false

instance (a : Answer) : Decidable a.Fails := inferInstanceAs (Decidable (_ ∨ _))

/-- What opening a socket does to the log. -/
inductive OpenLog (log : List (Access Int)) : Option Int → List (Access Int) → Prop
  | refused : OpenLog log none log
  | closed (fd : Int) : OpenLog log none (.release fd :: .alloc fd :: log)
  | opened (fd : Int) (hfd : 0 ≤ fd) : OpenLog log (some fd) (.alloc fd :: log)

theorem openSocket_spec :
    ((openSocket k s).1 = none ↔ (k s.asked).Fails) ∧
    (openSocket k s).2.brcmSocketCount = s.brcmSocketCount ∧
      (openSocket k s).2.brcmSocket = s.brcmSocket ∧
      OpenLog s.log (openSocket k s).1 (openSocket k s).2.log := by
  unfold openSocket Answer.Fails
  dsimp only
  cases hfd : (k s.asked).fd with
  | none => exact ⟨by simp, rfl, rfl, .refused⟩
  | some fd =>
      dsimp only
      by_cases hworks : ((k s.asked).configured && (k s.asked).bound) = true
      · rw [if_pos hworks]
        exact ⟨by simp [hworks], rfl, rfl, .opened fd (Int.natCast_nonneg fd)⟩
      · rw [if_neg hworks]
        exact ⟨by simp [eq_false_of_ne_true hworks], rfl, rfl, .closed fd⟩

@[simp] theorem openSocket_count : (openSocket k s).2.brcmSocketCount = s.brcmSocketCount :=
  openSocket_spec.2.1
@[simp] theorem openSocket_brcmSocket : (openSocket k s).2.brcmSocket = s.brcmSocket :=
  openSocket_spec.2.2.1

end

end BroadcomWl.Eapd
