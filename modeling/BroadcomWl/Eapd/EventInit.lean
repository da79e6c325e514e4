import BroadcomWl.Eapd.Recv
import BroadcomWl.Eapd.Workspace
import BroadcomWl.Lib.Accum
import BroadcomWl.Lib.Packed

/-!
# The event mask of a radio unit

Each application has a bit vector of the events that it wants to see. The driver has one mask for
each radio unit, which the interfaces of the unit share. `event_init` goes through the names of all
applications. For the first interface of a unit it sets the mask to the vectors of the applications
that list the interface; for each later one it gets the mask from the driver, adds the vectors, and
sets it again.

So a unit is an accumulator of sets of events, and the interfaces are its items. It ends with the
union of the vectors of the applications that list one of its interfaces in `all_ifnames`.
`event_init` does not look at what `add_to_list` answers, so a name may be missing there, nor at the
size of `wlunit`. -/

namespace BroadcomWl.Eapd

open BroadcomWl.Lib
open BroadcomWl.Nas (Bytes)

/-! ## Bit vectors -/

/-- `WL_EVENTING_MASK_LEN`; `WLC_E_LAST` is 130, or 131 for two cores. -/
def wlEventingMaskLen : Nat := 17

/-- An event that a bit vector has room for. -/
abbrev Event := Fin (8 * wlEventingMaskLen)

instance : NeZero (8 * wlEventingMaskLen) := ⟨by decide⟩

abbrev Mask := Fin wlEventingMaskLen → UInt8

def Mask.zero : Mask := fun _ => 0

/-- The loop of `bitvec[i] |= app->bitvec[i]`. -/
def Mask.or (m n : Mask) : Mask := fun i => m i ||| n i

/-- `(i) / NBBY`. -/
def Event.octet (e : Event) : Fin wlEventingMaskLen := ⟨e.val / 8, Nat.div_lt_of_lt_mul e.isLt⟩

/-- `1 << ((i) % NBBY)`. -/
def Event.bit (e : Event) : UInt8 := 1 <<< UInt8.ofNat (e.val % 8)

def setbit (m : Mask) (e : Event) : Mask := Function.update m e.octet (m e.octet ||| e.bit)

def isset (m : Mask) (e : Event) : Bool := m e.octet &&& e.bit != 0

def wlcELink : Nat := 16
def wlcEMicError : Nat := 17
def wlcEProbreqMsg : Nat := 44
def wlcEWnmStaSleep : Nat := 107

/-- `memset`, and `setbit` for each event. -/
def setEventmask (events : List Nat) : Mask :=
  events.foldl (fun m i => setbit m (Fin.ofNat _ i)) .zero

/-- `wps_app_set_eventmask`, with and without `__CONFIG_WFI__`. -/
def wpsAppSetEventmask (wfi : Bool) : Mask :=
  setEventmask ([wlcEEapolMsg, wlcEProbreqMsg] ++
    if wfi then [wlcEAssocInd, wlcEReassocInd, wlcEDisassocInd, wlcEDeauthInd] else [])

/-- `nas_app_set_eventmask`, with and without `WLWNM`. -/
def nasAppSetEventmask (wlwnm : Bool) : Mask :=
  setEventmask ([wlcEEapolMsg, wlcELink, wlcEAssocInd, wlcEReassocInd, wlcEDisassocInd,
    wlcEDeauthInd, wlcEMicError] ++ if wlwnm then [wlcEWnmStaSleep] else [])

/-- `ses_app_set_eventmask`. -/
def sesAppSetEventmask : Mask := setEventmask [wlcEEapolMsg]

/-- The bits of a vector. -/
def Mask.events (m : Mask) : Set Event := {e | isset m e = true}

theorem isset_zero (e : Event) : isset .zero e = false := by
  unfold isset Mask.zero
  rw [UInt8.zero_and]
  rfl

theorem isset_or (m n : Mask) (e : Event) : isset (m.or n) e = (isset m e || isset n e) := by
  have hzero (x y : UInt8) : (x ||| y != 0) = (x != 0 || y != 0) := by
    rw [Bool.eq_iff_iff, Bool.or_eq_true, bne_iff_ne, bne_iff_ne, bne_iff_ne, ne_eq,
      UInt8.or_eq_zero_iff, not_and_or]
  unfold isset Mask.or
  rw [or_and_octet, hzero]

@[simp] theorem events_zero : Mask.zero.events = ∅ := by
  ext e
  simp [Mask.events, isset_zero]

@[simp] theorem events_or (m n : Mask) : (m.or n).events = m.events ∪ n.events := by
  ext e
  simp [Mask.events, isset_or]

theorem bit_and_bit (e e' : Event) : (e.bit &&& e'.bit != 0) = decide (e.val % 8 = e'.val % 8) := by
  have hbits : ∀ i j : Fin 8,
      ((1 : UInt8) <<< UInt8.ofNat i.val &&& 1 <<< UInt8.ofNat j.val != 0) =
          decide (i.val = j.val) := by
    decide
  exact hbits ⟨e.val % 8, Nat.mod_lt _ (by decide)⟩ ⟨e'.val % 8, Nat.mod_lt _ (by decide)⟩

@[simp] theorem events_setbit (m : Mask) (e : Event) : (setbit m e).events = insert e m.events := by
  ext e'
  have hor := isset_or m (Function.update Mask.zero e.octet e.bit) e'
  have hsetbit : m.or (Function.update Mask.zero e.octet e.bit) = setbit m e := by
    funext i
    by_cases hi : i = e.octet
    · subst hi
      simp [Mask.or, setbit]
    · simp [Mask.or, setbit, hi, Mask.zero]
  have hbit : isset (Function.update Mask.zero e.octet e.bit) e' = true ↔ e' = e := by
    unfold isset
    by_cases hoctet : e'.octet = e.octet
    · rw [hoctet, Function.update_self, bit_and_bit, decide_eq_true_eq, Fin.ext_iff]
      have hdiv : e'.val / 8 = e.val / 8 := congrArg Fin.val hoctet
      omega
    · rw [Function.update_of_ne hoctet]
      exact ⟨fun hset => absurd hset (by simp [Mask.zero]),
        fun heq => absurd (congrArg Event.octet heq) hoctet⟩
  rw [hsetbit] at hor
  rw [Mask.events, Set.mem_ofPred_eq, hor, Bool.or_eq_true, hbit, or_comm]
  rfl

theorem isset_setEventmask (events : List Nat) (e : Event) :
    isset (setEventmask events) e = true ↔ ∃ i ∈ events, Fin.ofNat _ i = e := by
  have hfold (m : Mask) : (events.foldl (fun m i => setbit m (Fin.ofNat _ i)) m).events =
      {e | ∃ i ∈ events, Fin.ofNat _ i = e} ∪ m.events := by
    induction events generalizing m with
    | nil => simp
    | cons i events ih =>
        rw [List.foldl_cons, ih, events_setbit]
        ext e'
        simp only [Set.mem_union, Set.mem_ofPred_eq, Set.mem_insert_iff, List.mem_cons,
          exists_eq_or_imp, eq_comm (a := e')]
        exact or_left_comm.trans or_assoc.symm
  have hevents := hfold .zero
  rw [events_zero, Set.union_empty] at hevents
  exact Set.ext_iff.mp hevents e

/-! ## The driver -/

/-- The driver's `event_msgs`, with a state of the driver. -/
structure EventMsgs (σ : Type) where
  /-- `wl_iovar_get`. -/
  get : Bytes → σ → Option Mask
  /-- `wl_iovar_set`, and whether it works. -/
  set : Bytes → Mask → σ → Bool × σ

/-- The radio unit of an interface of the system. -/
def radioOf (h : Host) (osName : Bytes) : Option Nat :=
  if h.wlProbe osName then h.getInstance osName else none

/-- The radio unit of a name in the configuration. -/
def unitOf (h : Host) (name : Bytes) : Option Nat := (h.nvifnameToOsifname name).bind (radioOf h)

/-- Setting works, and getting returns what was last set for the unit, through whichever of its
interfaces. -/
structure EventMsgs.Remembers {σ : Type} (d : EventMsgs σ) (h : Host) : Prop where
  set_works : ∀ osName m s, (d.set osName m s).1 = true
  get_set : ∀ osName osName' u m s, radioOf h osName = some u → radioOf h osName' = some u →
    (d.set osName m s).1 = true → d.get osName' (d.set osName m s).2 = some m
  get_other : ∀ osName osName' u u' m s, radioOf h osName = some u →
    radioOf h osName' = some u' → u' ≠ u →
    d.get osName' (d.set osName m s).2 = d.get osName' s

/-! ## The function -/

/-- The size of `wlunit`. -/
def maxUnits : Nat := 16

/-- `add_to_list(name, all_ifnames, sizeof(all_ifnames))`; its answer is dropped. -/
def addName (h : Host) (all : List Bytes) (name : Bytes) : List Bytes :=
  (h.lists.addToList name all ifnamesSize).2

/-- `all_ifnames`. -/
def allIfnames (h : Host) (w : Wksp) : List Bytes :=
  let all := (w.app .wps).ifnames
  let all := (h.lists.foreachName (w.app .nas).ifnames).foldl (addName h) all
  (h.lists.foreachName (w.app .ses).ifnames).foldl (addName h) all

/-- `wlunit`, and the driver. -/
structure EventState (σ : Type) where
  wlunit : Fin maxUnits → Int
  driver : σ

section

variable {σ : Type} (h : Host) (d : EventMsgs σ) (bitvec : App → Mask) (w : Wksp)

/-- The vector of an application is added if it lists the name. -/
def addBitvec (name : Bytes) (a : App) (m : Mask) : Mask :=
  if h.lists.findInList (w.app a).ifnames name then m.or (bitvec a) else m

/-- Those of all applications. -/
def addBitvecs (name : Bytes) (m : Mask) : Mask :=
  let m := addBitvec h bitvec w name .wps m
  let m := addBitvec h bitvec w name .nas m
  addBitvec h bitvec w name .ses m

/-- The body of the loop of `event_init`. It reads outside of `wlunit` if the unit is too large. -/
def eventVisit (s : EventState σ) (name : Bytes) : Option (EventState σ) :=
  match h.nvifnameToOsifname name with
  | none => some s
  | some osName =>
    if !h.wlProbe osName then some s
    else
      match h.getInstance osName with
      | none => some s
      | some unit =>
        if hunit : unit < maxUnits then
          match if s.wlunit ⟨unit, hunit⟩ = -1 then some Mask.zero else d.get osName s.driver with
          | none => some s
          | some m =>
            some ⟨Function.update s.wlunit ⟨unit, hunit⟩ unit,
              (d.set osName (addBitvecs h bitvec w name m) s.driver).2⟩
        else none

/-- `event_init`: what the driver's state is afterwards. -/
def eventInit (s : σ) : Option σ :=
  ((h.lists.foreachName (allIfnames h w)).foldlM (eventVisit h d bitvec w) ⟨fun _ => -1, s⟩).map
    EventState.driver

end

/-! ## The list of all names -/

/-- The names fit into `char name[IFNAMSIZ]`; those that `eapd_add_interface` enters come from an
array of 8. -/
def Short (w : Wksp) : Prop := ∀ a, ∀ name ∈ (w.app a).ifnames, name.length < ifnamsiz

section

variable {h : Host} {w : Wksp} {name : Bytes}

theorem mem_addName (hl : h.lists.Laws) {name' : Bytes} {all : List Bytes}
    (hmem : name' ∈ addName h all name) :
    name' = name ∨ name' ∈ all := by
  unfold addName at hmem
  by_cases hold : name ∈ all
  · rw [hl.add_old name all _ hold] at hmem
    exact .inr hmem
  · cases htaken : (h.lists.addToList name all ifnamesSize).1 with
    | true =>
        rw [hl.add_taken name all _ hold htaken] at hmem
        simpa [or_comm] using hmem
    | false =>
        rw [hl.add_refused name all _ htaken] at hmem
        exact .inr hmem

theorem allIfnames_eq (hl : h.lists.Laws) (hshort : Short w) :
    allIfnames h w =
      ((w.app .nas).ifnames ++ (w.app .ses).ifnames).foldl (addName h) (w.app .wps).ifnames := by
  unfold allIfnames
  dsimp only
  rw [hl.foreach_short _ (hshort .nas), hl.foreach_short _ (hshort .ses), List.foldl_append]

theorem of_mem_allIfnames (hl : h.lists.Laws) (hshort : Short w) (hmem : name ∈ allIfnames h w) :
    ∃ a, name ∈ (w.app a).ifnames := by
  have hfold (names all : List Bytes) (hmem : name ∈ names.foldl (addName h) all) : name ∈ all ∨
      name ∈ names := by
    induction names generalizing all with
    | nil => exact .inl hmem
    | cons name' names ih =>
        rcases ih _ hmem with hall | hnames
        · rcases mem_addName hl hall with rfl | hall
          · exact .inr List.mem_cons_self
          · exact .inl hall
        · exact .inr (List.mem_cons_of_mem _ hnames)
  rw [allIfnames_eq hl hshort] at hmem
  rcases hfold _ _ hmem with hwps | hothers
  · exact ⟨.wps, hwps⟩
  · rcases List.mem_append.mp hothers with hnas | hses
    · exact ⟨.nas, hnas⟩
    · exact ⟨.ses, hses⟩

theorem foreachName_allIfnames (hl : h.lists.Laws) (hshort : Short w) :
    h.lists.foreachName (allIfnames h w) = allIfnames h w := by
  apply hl.foreach_short
  intro name hname
  obtain ⟨a, ha⟩ := of_mem_allIfnames hl hshort hname
  exact hshort a name ha

end

/-! ## A unit as an accumulator -/

section

variable {σ : Type} {h : Host} {d : EventMsgs σ} {bitvec : App → Mask} {w : Wksp} {s₀ : σ}
  {s : EventState σ}
  {name : Bytes} {u : Nat}

/-- The events that an interface adds to the mask of its unit. -/
def wanted (bitvec : App → Mask) (w : Wksp) (name : Bytes) : Set Event :=
  {e | ∃ a, name ∈ (w.app a).ifnames ∧ isset (bitvec a) e = true}

/-- The accumulator says which units have been visited, and what the driver answers for their
interfaces. -/
structure Reads (h : Host) (d : EventMsgs σ) (s₀ : σ) (s : EventState σ)
    (a : Accum Nat (Set Event)) : Prop where
  seen : ∀ u : Fin maxUnits, s.wlunit u = -1 ↔ u.val ∉ a.seen
  mask : ∀ osName u, radioOf h osName = some u → u ∈ a.seen →
    ∃ m, d.get osName s.driver = some m ∧ m.events = a.val u
  kept : ∀ osName u, radioOf h osName = some u → u ∉ a.seen →
    d.get osName s.driver = d.get osName s₀

theorem events_addBitvec (hl : h.lists.Laws) (name : Bytes) (a : App) (m : Mask) :
    (addBitvec h bitvec w name a m).events =
      m.events ∪ {e | name ∈ (w.app a).ifnames ∧ isset (bitvec a) e = true} := by
  unfold addBitvec
  by_cases hmem : name ∈ (w.app a).ifnames
  · rw [if_pos ((hl.find _ name).mpr hmem), events_or]
    simp [hmem, Mask.events]
  · rw [if_neg (mt (hl.find _ name).mp hmem)]
    simp [hmem]

theorem events_addBitvecs (hl : h.lists.Laws) (name : Bytes) (m : Mask) :
    (addBitvecs h bitvec w name m).events = m.events ∪ wanted bitvec w name := by
  have hwanted : wanted bitvec w name =
      {e | name ∈ (w.app .wps).ifnames ∧ isset (bitvec .wps) e = true} ∪
        ({e | name ∈ (w.app .nas).ifnames ∧ isset (bitvec .nas) e = true} ∪
          {e | name ∈ (w.app .ses).ifnames ∧ isset (bitvec .ses) e = true}) := by
    ext e
    constructor
    · rintro ⟨a, ha⟩
      cases a with
      | wps => exact .inl ha
      | nas => exact .inr (.inl ha)
      | ses => exact .inr (.inr ha)
    · rintro (ha | ha | ha)
      · exact ⟨.wps, ha⟩
      · exact ⟨.nas, ha⟩
      · exact ⟨.ses, ha⟩
  unfold addBitvecs
  dsimp only
  rw [events_addBitvec hl, events_addBitvec hl, events_addBitvec hl, hwanted, Set.union_assoc,
    Set.union_assoc]

theorem eventVisit_none (hunit : unitOf h name = none) :
    eventVisit h d bitvec w s name = some s := by
  unfold unitOf radioOf at hunit
  unfold eventVisit
  cases hos : h.nvifnameToOsifname name with
  | none => rfl
  | some osName =>
      rw [hos, Option.bind_some] at hunit
      cases hprobe : h.wlProbe osName with
      | false => simp [hprobe]
      | true =>
          rw [hprobe, if_pos rfl] at hunit
          simp [hprobe, hunit]

/-- What is done for a name with a unit, where `m` is the mask to start from. -/
theorem eventVisit_some (d : EventMsgs σ) (bitvec : App → Mask) (w : Wksp) (s : EventState σ)
    (hunit : unitOf h name = some u) (hu : u < maxUnits) :
    ∃ osName, radioOf h osName = some u ∧
      ∀ m, (if s.wlunit ⟨u, hu⟩ = -1 then some Mask.zero else d.get osName s.driver) = some m →
        eventVisit h d bitvec w s name = some ⟨Function.update s.wlunit ⟨u, hu⟩ u,
          (d.set osName (addBitvecs h bitvec w name m) s.driver).2⟩ := by
  obtain ⟨osName, hos, hradio⟩ := Option.bind_eq_some_iff.mp hunit
  refine ⟨osName, hradio, fun m hm => ?_⟩
  unfold radioOf at hradio
  split_ifs at hradio with hprobe
  unfold eventVisit
  simp only [hos, hprobe, Bool.not_true, Bool.false_eq_true, if_false, hradio, hu, dif_pos, hm]

theorem eventVisit_unit {s' : EventState σ} (hvisit : eventVisit h d bitvec w s name = some s')
    (hunit : unitOf h name = some u) : u < maxUnits := by
  obtain ⟨osName, hos, hradio⟩ := Option.bind_eq_some_iff.mp hunit
  unfold radioOf at hradio
  split_ifs at hradio with hprobe
  by_contra hu
  unfold eventVisit at hvisit
  simp [hos, hprobe, hradio, hu] at hvisit

theorem eventVisits_unit {names : List Bytes} {s' : EventState σ}
    (hvisits : names.foldlM (eventVisit h d bitvec w) s = some s') :
    ∀ name ∈ names, ∀ u, unitOf h name = some u → u < maxUnits := by
  induction names generalizing s with
  | nil => simp
  | cons name names ih =>
      rw [List.foldlM_cons, Option.bind_eq_bind, Option.bind_eq_some_iff] at hvisits
      obtain ⟨s₁, hvisit, hrest⟩ := hvisits
      intro name' hname' u hunit
      rcases List.mem_cons.mp hname' with rfl | hname'
      · exact eventVisit_unit hvisit hunit
      · exact ih hrest name' hname' u hunit

/-- **One name**: the mask of its unit takes what it adds, as the accumulator does. -/
theorem eventVisit_reads (hl : h.lists.Laws) (hd : d.Remembers h)
    (hunit : ∀ u, unitOf h name = some u → u < maxUnits) {a : Accum Nat (Set Event)}
    (hr : Reads h d s₀ s a) :
    ∃ s', eventVisit h d bitvec w s name = some s' ∧
      Reads h d s₀ s' (a.visit (unitOf h) (wanted bitvec w) name) := by
  cases hname : unitOf h name with
  | none => exact ⟨s, eventVisit_none hname, by rwa [Accum.visit_none hname]⟩
  | some u =>
      have hu := hunit u hname
      have hmem (u' : Nat) : u' ∈ (a.visit (unitOf h) (wanted bitvec w) name).seen ↔
          u' = u ∨ u' ∈ a.seen :=
        Accum.mem_visit hname
      -- the state afterwards, if `m'` is what is set
      have hafter {osName : Bytes} {m' : Mask} (hos : radioOf h osName = some u)
          (hm' : m'.events = (a.visit (unitOf h) (wanted bitvec w) name).val u) :
          Reads h d s₀ ⟨Function.update s.wlunit ⟨u, hu⟩ u, (d.set osName m' s.driver).2⟩
            (a.visit (unitOf h) (wanted bitvec w) name) := by
        refine ⟨fun u' => ?_, fun osName' u' hos' hseen => ?_, fun osName' u' hos' hseen => ?_⟩
        · rw [hmem, not_or]
          dsimp only
          by_cases heq : u' = ⟨u, hu⟩
          · subst heq
            rw [Function.update_self]
            exact ⟨fun hneg => absurd hneg (by omega), fun hne => absurd rfl hne.1⟩
          · rw [Function.update_of_ne heq, hr.seen u']
            exact ⟨fun hnot => ⟨fun hval => heq (Fin.ext hval), hnot⟩, And.right⟩
        · by_cases heq : u' = u
          · subst heq
            exact ⟨m', hd.get_set osName osName' u' m' s.driver hos hos'
              (hd.set_works osName m' s.driver), hm'⟩
          · rw [hd.get_other osName osName' u u' m' s.driver hos hos' heq,
              Accum.visit_of_ne hname heq]
            exact hr.mask osName' u' hos' (((hmem u').mp hseen).resolve_left heq)
        · rw [hmem, not_or] at hseen
          rw [hd.get_other osName osName' u u' m' s.driver hos hos' hseen.1]
          exact hr.kept osName' u' hos' hseen.2
      obtain ⟨osName, hos, hvisit⟩ := eventVisit_some d bitvec w s hname hu
      by_cases hseen : u ∈ a.seen
      · have hset : ¬s.wlunit ⟨u, hu⟩ = -1 := fun hneg => (hr.seen ⟨u, hu⟩).mp hneg hseen
        obtain ⟨m, hget, hm⟩ := hr.mask osName u hos hseen
        refine ⟨_, hvisit m (by rw [if_neg hset, hget]), hafter hos ?_⟩
        rw [events_addBitvecs hl, hm, Accum.visit_again hname hseen]
        rfl
      · have hunset : s.wlunit ⟨u, hu⟩ = -1 := (hr.seen ⟨u, hu⟩).mpr hseen
        refine ⟨_, hvisit .zero (if_pos hunset), hafter hos ?_⟩
        rw [events_addBitvecs hl, events_zero, Accum.visit_first hname hseen, Set.empty_union]

/-- **The whole loop**, for any list of names. -/
theorem eventVisits_reads (hl : h.lists.Laws) (hd : d.Remembers h) (bitvec : App → Mask)
    (w : Wksp) (s₀ : σ) {names : List Bytes}
    (hunits : ∀ name ∈ names, ∀ u, unitOf h name = some u → u < maxUnits) :
    ∃ s a, names.foldlM (eventVisit h d bitvec w) ⟨fun _ => -1, s₀⟩ = some s ∧ Reads h d s₀ s a ∧
      Accum.After (unitOf h) (wanted bitvec w) names (fun _ => ∅) a := by
  have hstart : Reads h d s₀ ⟨fun _ => -1, s₀⟩ ⟨∅, fun _ => ∅⟩ :=
    ⟨fun u => by simp, fun _ _ _ hseen => absurd hseen (Set.notMem_empty _), fun _ _ _ _ => rfl⟩
  obtain ⟨s, hs, hr⟩ := foldlM_simulation (e := id) (l := names) (f := eventVisit h d bitvec w)
    (g := Accum.visit (unitOf h) (wanted bitvec w)) (R := Reads h d s₀)
    (fun s a name hname hr => eventVisit_reads hl hd (hunits name hname) hr) hstart
  rw [List.map_id] at hs
  have hafter := (Accum.After.nil (unitOf h) (wanted bitvec w) fun _ => ∅).foldl names
  exact ⟨s, _, hs, hr, hafter⟩

end

/-! ## The masks -/

section

variable {σ : Type} (h : Host) (d : EventMsgs σ) (bitvec : App → Mask) (w : Wksp)

/-- The application lists an interface of the unit. -/
def Lists (a : App) (u : Nat) : Prop := ∃ name ∈ (w.app a).ifnames, unitOf h name = some u

/-- It lists one whose name is in `all_ifnames`. -/
def ListsMerged (a : App) (u : Nat) : Prop :=
  ∃ name ∈ (w.app a).ifnames, name ∈ allIfnames h w ∧ unitOf h name = some u

/-- The mask of each unit that is listed has the bits of the applications that list it, and no
others. -/
def IsUnion (lists : App → Nat → Prop) (s : σ) : Prop :=
  ∀ osName u, radioOf h osName = some u → (∃ a, lists a u) →
    ∃ m, d.get osName s = some m ∧ ∀ e, isset m e = true ↔ ∃ a, lists a u ∧
      isset (bitvec a) e = true

/-- The units of the interfaces in `all_ifnames` are in `wlunit`. -/
def UnitsFit : Prop := ∀ name ∈ allIfnames h w, ∀ u, unitOf h name = some u → u < maxUnits

/-- No name is missing in `all_ifnames`. -/
def AllTaken : Prop := ∀ a, ∀ name ∈ (w.app a).ifnames, name ∈ allIfnames h w

/-- What is missing in `all_ifnames` is not missed: the names that are there are of units in
`wlunit`, the events of a unit are those of applications with a name there, and a unit without such
a name has the right mask already. -/
structure MasksFit (s₀ : σ) : Prop where
  units : UnitsFit h w
  events : ∀ u, (∃ a, ListsMerged h w a u) → ∀ a e, Lists h w a u → isset (bitvec a) e = true →
    ∃ a', ListsMerged h w a' u ∧ isset (bitvec a') e = true
  kept : ∀ osName u, radioOf h osName = some u → (∃ a, Lists h w a u) →
    (∀ a, ¬ListsMerged h w a u) →
    ∃ m, d.get osName s₀ = some m ∧ ∀ e, isset m e = true ↔ ∃ a, Lists h w a u ∧
      isset (bitvec a) e = true

variable {h d bitvec w}

theorem ListsMerged.lists {a : App} {u : Nat} (hmerged : ListsMerged h w a u) : Lists h w a u := by
  obtain ⟨name, ha, -, hunit⟩ := hmerged
  exact ⟨name, ha, hunit⟩

theorem AllTaken.listsMerged (htaken : AllTaken h w) : ListsMerged h w = Lists h w := by
  funext a u
  refine propext ⟨ListsMerged.lists, ?_⟩
  rintro ⟨name, ha, hunit⟩
  exact ⟨name, ha, htaken a name ha, hunit⟩

theorem AllTaken.masksFit (htaken : AllTaken h w) (hunits : UnitsFit h w) (s₀ : σ) :
    MasksFit h d bitvec w s₀ where
  units := hunits
  events _ _ a _ hlists hset := ⟨a, by rwa [htaken.listsMerged], hset⟩
  kept _ _ _ hlists hnone := by
    obtain ⟨a, ha⟩ := hlists
    exact absurd (by rwa [htaken.listsMerged]) (hnone a)

theorem mem_val_iff {a : Accum Nat (Set Event)} {names : List Bytes} {val₀ : Nat → Set Event}
    (hafter : Accum.After (unitOf h) (wanted bitvec w) names val₀ a) {u : Nat} (hseen : u ∈ a.seen)
    (e : Event) :
    e ∈ a.val u ↔ ∃ name ∈ names, unitOf h name = some u ∧ e ∈ wanted bitvec w name := by
  rw [(hafter.lub u hseen).unique (isLUB_sSup _), Set.sSup_eq_sUnion, Set.mem_sUnion]
  constructor
  · rintro ⟨x, ⟨name, hname, hunit, rfl⟩, he⟩
    exact ⟨name, hname, hunit, he⟩
  · rintro ⟨name, hname, hunit, he⟩
    exact ⟨_, ⟨name, hname, hunit, rfl⟩, he⟩

/-- **The masks are the unions over the names in `all_ifnames`**, and a unit without such a name
keeps its mask. -/
theorem eventInit_merged (hl : h.lists.Laws) (hd : d.Remembers h) (bitvec : App → Mask)
    (hshort : Short w) (hunits : UnitsFit h w) (s₀ : σ) :
    ∃ s, eventInit h d bitvec w s₀ = some s ∧ IsUnion h d bitvec (ListsMerged h w) s ∧
      ∀ osName u, radioOf h osName = some u → (∀ a, ¬ListsMerged h w a u) →
      d.get osName s = d.get osName s₀ := by
  obtain ⟨s, a, hs, hr, hafter⟩ := eventVisits_reads hl hd bitvec w s₀ hunits
  have hseen (u : Nat) : u ∈ a.seen ↔ ∃ app, ListsMerged h w app u := by
    rw [hafter.seen u]
    constructor
    · rintro ⟨name, hname, hunit⟩
      obtain ⟨app, happ⟩ := of_mem_allIfnames hl hshort hname
      exact ⟨app, name, happ, hname, hunit⟩
    · rintro ⟨app, name, -, hname, hunit⟩
      exact ⟨name, hname, hunit⟩
  refine ⟨s.driver, ?_, fun osName u hos hlists => ?_, fun osName u hos hnone => ?_⟩
  · unfold eventInit
    rw [foreachName_allIfnames hl hshort, hs]
    rfl
  · obtain ⟨m, hget, hm⟩ := hr.mask osName u hos ((hseen u).mpr hlists)
    refine ⟨m, hget, fun e => ?_⟩
    have hbits : isset m e = true ↔ e ∈ a.val u := by
      rw [← hm]
      rfl
    rw [hbits, mem_val_iff hafter ((hseen u).mpr hlists)]
    constructor
    · rintro ⟨name, hname, hunit, app, happ, hset⟩
      exact ⟨app, ⟨name, happ, hname, hunit⟩, hset⟩
    · rintro ⟨app, ⟨name, happ, hname, hunit⟩, hset⟩
      exact ⟨name, hname, hunit, app, happ, hset⟩
  · refine hr.kept osName u hos fun hmem => ?_
    obtain ⟨app, happ⟩ := (hseen u).mp hmem
    exact hnone app happ

theorem eventInit_units (hl : h.lists.Laws) (hshort : Short w) {s₀ s : σ}
    (hs : eventInit h d bitvec w s₀ = some s) :
    UnitsFit h w := by
  unfold eventInit at hs
  rw [foreachName_allIfnames hl hshort] at hs
  obtain ⟨s', hvisits, -⟩ := Option.map_eq_some_iff.mp hs
  exact eventVisits_unit hvisits

/-- **The order of the names does not matter**, where all names are taken. -/
theorem eventInit_order (hl : h.lists.Laws) (hd : d.Remembers h) (bitvec : App → Mask) {w' : Wksp}
    (hshort : Short w) (hunits : UnitsFit h w) (htaken : AllTaken h w) (htaken' : AllTaken h w')
    (hperm : ∀ a, (w.app a).ifnames.Perm (w'.app a).ifnames) (s₀ : σ) :
    ∃ s s', eventInit h d bitvec w s₀ = some s ∧ eventInit h d bitvec w' s₀ = some s' ∧
      ∀ osName u, radioOf h osName = some u →
        (d.get osName s).map Mask.events = (d.get osName s').map Mask.events := by
  have hmem (a : App) (name : Bytes) : name ∈ (w'.app a).ifnames ↔ name ∈ (w.app a).ifnames :=
    (hperm a).symm.mem_iff
  have hshort' : Short w' := fun a name hname => hshort a name ((hmem a name).mp hname)
  have hunits' : UnitsFit h w' := by
    intro name hname u hunit
    obtain ⟨a, ha⟩ := of_mem_allIfnames hl hshort' hname
    exact hunits name (htaken a name ((hmem a name).mp ha)) u hunit
  have hlists : Lists h w' = Lists h w := by
    funext a u
    unfold Lists
    simp only [hmem]
  obtain ⟨s, hs, hunion, hkept⟩ := eventInit_merged hl hd bitvec hshort hunits s₀
  obtain ⟨s', hs', hunion', hkept'⟩ := eventInit_merged hl hd bitvec hshort' hunits' s₀
  rw [htaken.listsMerged] at hunion hkept
  rw [htaken'.listsMerged, hlists] at hunion' hkept'
  refine ⟨s, s', hs, hs', fun osName u hos => ?_⟩
  by_cases hlisted : ∃ a, Lists h w a u
  · obtain ⟨m, hget, hm⟩ := hunion osName u hos hlisted
    obtain ⟨m', hget', hm'⟩ := hunion' osName u hos hlisted
    have hevents : m.events = m'.events := Set.ext fun e => (hm e).trans (hm' e).symm
    rw [hget, hget', Option.map_some, Option.map_some, hevents]
  · have hnone := not_exists.mp hlisted
    rw [hkept osName u hos hnone, hkept' osName u hos hnone]

/-- **The event mask of a unit is the union over the applications** that list it, exactly if what is
missing in `all_ifnames` is not missed; a unit that nobody lists keeps its mask. -/
theorem event_init_union (hl : h.lists.Laws) (hd : d.Remembers h) (bitvec : App → Mask)
    (hshort : Short w) (s₀ : σ) :
    ((∃ s, eventInit h d bitvec w s₀ = some s ∧ IsUnion h d bitvec (Lists h w) s) ↔
      MasksFit h d bitvec w s₀) ∧
      ∀ s, eventInit h d bitvec w s₀ = some s → ∀ osName u, radioOf h osName = some u →
        (∀ a, ¬Lists h w a u) → d.get osName s = d.get osName s₀ := by
  refine ⟨⟨?_, fun hfit => ?_⟩, fun s hs osName u hos hnone => ?_⟩
  · rintro ⟨s, hs, hunion⟩
    have hunits := eventInit_units hl hshort hs
    obtain ⟨s', hs', hmerged, hkept⟩ := eventInit_merged hl hd bitvec hshort hunits s₀
    have heq : s' = s := Option.some.inj (hs'.symm.trans hs)
    subst heq
    refine ⟨hunits, fun u hsome a e hlists hset => ?_, fun osName u hos hlists hnone => ?_⟩
    · obtain ⟨a₀, hmerged₀⟩ := hsome
      obtain ⟨name, -, -, hunit⟩ := id hmerged₀
      obtain ⟨osName, -, hos⟩ := Option.bind_eq_some_iff.mp hunit
      obtain ⟨m, hget, hm⟩ := hunion osName u hos ⟨a, hlists⟩
      obtain ⟨m', hget', hm'⟩ := hmerged osName u hos ⟨a₀, hmerged₀⟩
      have hmask : m = m' := Option.some.inj (hget.symm.trans hget')
      rw [← hm' e, ← hmask, hm e]
      exact ⟨a, hlists, hset⟩
    · rw [← hkept osName u hos hnone]
      exact hunion osName u hos hlists
  · obtain ⟨s, hs, hmerged, hkept⟩ := eventInit_merged hl hd bitvec hshort hfit.units s₀
    refine ⟨s, hs, fun osName u hos hlists => ?_⟩
    by_cases hsome : ∃ a, ListsMerged h w a u
    · obtain ⟨m, hget, hm⟩ := hmerged osName u hos hsome
      refine ⟨m, hget, fun e => (hm e).trans ⟨?_, ?_⟩⟩
      · rintro ⟨a, ha, hset⟩
        exact ⟨a, ha.lists, hset⟩
      · rintro ⟨a, ha, hset⟩
        exact hfit.events u hsome a e ha hset
    · rw [hkept osName u hos (not_exists.mp hsome)]
      exact hfit.kept osName u hos hlists (not_exists.mp hsome)
  · obtain ⟨s', hs', -, hkept⟩ :=
      eventInit_merged hl hd bitvec hshort (eventInit_units hl hshort hs) s₀
    have heq : s' = s := Option.some.inj (hs'.symm.trans hs)
    rw [← heq]
    exact hkept osName u hos fun a hmerged => hnone a hmerged.lists

end

/-! ## Units and names that do not fit -/

/-- A number below 100. -/
def decimal (n : Nat) : Bytes :=
  if n < 10 then [UInt8.ofNat (48 + n)] else [UInt8.ofNat (48 + n / 10), UInt8.ofNat (48 + n % 10)]

/-- `wl1`, `wl1.2` and so on. -/
def bssName (unit bss : Nat) : Bytes :=
  [119, 108] ++ decimal unit ++ if bss = 0 then [] else 46 :: decimal bss

/-- Radios whose interfaces have the same names in the system as in the configuration. -/
def wlHost : Host where
  bcmwpa2 := false
  nvifnameToOsifname := some
  osifnameToNvifname := some
  wlProbe _ := true
  getInstance osName :=
    some (((osName.drop 2).takeWhile (· ≠ 46)).foldl (fun n c => 10 * n + (c.toNat - 48)) 0)
  wlHwaddr _ := []
  isPsta _ := false
  dpstaIfnames := []
  getIfnameByWlmac _ ifname := some ifname
  malloc := true
  nasAppEnabled _ := true
  allowJoin _ := true
  lists := .fitting

/-- A driver with a table of masks. -/
def tableMsgs (h : Host) : EventMsgs (Nat → Mask) where
  get osName s := (radioOf h osName).map s
  set osName m s := (true, (radioOf h osName).elim s fun u => Function.update s u m)

theorem tableMsgs_remembers (h : Host) : (tableMsgs h).Remembers h where
  set_works _ _ _ := rfl
  get_set osName osName' u m s hos hos' _ := by
    unfold tableMsgs
    dsimp only
    rw [hos, hos', Option.elim_some, Option.map_some, Function.update_self]
  get_other osName osName' u u' m s hos hos' hne := by
    unfold tableMsgs
    dsimp only
    rw [hos, hos', Option.elim_some, Option.map_some, Option.map_some, Function.update_of_ne hne]

/-- The vectors of the applications. -/
def appBitvec : App → Mask
  | .wps => wpsAppSetEventmask false
  | .nas => nasAppSetEventmask false
  | .ses => sesAppSetEventmask

/-- The applications have these names. -/
def listing (wps nas ses : List Bytes) : Wksp :=
  { Wksp.alloc with
    app := fun
      | .wps => ⟨wps, -1, []⟩
      | .nas => ⟨nas, -1, []⟩
      | .ses => ⟨ses, -1, []⟩ }

/-- Sixteen interfaces on each of the radios 0 to 9, and eight on radio 10: 1053 octets. -/
def crowd : List Bytes :=
  ((List.range 11).flatMap fun unit => (List.range 16).map (bssName unit)).take 168

/-- Two radios with two interfaces each. -/
def sharing : Wksp := listing [bssName 0 0, bssName 1 1] [bssName 0 1, bssName 0 0] [bssName 1 0]

theorem event_init_union_shared :
    ∃ s, eventInit wlHost (tableMsgs wlHost) appBitvec sharing (fun _ => .zero) = some s ∧
      IsUnion wlHost (tableMsgs wlHost) appBitvec (Lists wlHost sharing) s := by
  have hshort : Short sharing := by
    intro a
    cases a <;> decide
  have hunits : UnitsFit wlHost sharing := by
    have hall : ∀ name ∈ allIfnames wlHost sharing, ∀ u ∈ unitOf wlHost name,
        u < maxUnits := by decide
    exact hall
  have htaken : AllTaken wlHost sharing := by
    intro a
    cases a <;> decide
  have hmasks := event_init_union NameLists.fitting_laws (tableMsgs_remembers wlHost) appBitvec
    hshort fun _ => .zero
  exact hmasks.1.mpr (htaken.masksFit hunits _)

/-- A unit behind the end of `wlunit` is not handled; a name that `add_to_list` refuses is dropped,
and its unit does not get the events. -/
theorem event_mask_lost :
    (tableMsgs wlHost).Remembers wlHost ∧ wlHost.lists.Laws ∧
    (Lists wlHost (listing [] [bssName 16 0] []) .nas 16 ∧
      eventInit wlHost (tableMsgs wlHost) appBitvec (listing [] [bssName 16 0] [])
        (fun _ => .zero) = none) ∧
    ∃ s, eventInit wlHost (tableMsgs wlHost) appBitvec (listing crowd [bssName 11 0] [])
      (fun _ => .zero) = some s ∧
      ¬IsUnion wlHost (tableMsgs wlHost) appBitvec
        (Lists wlHost (listing crowd [bssName 11 0] [])) s := by
  refine ⟨tableMsgs_remembers wlHost, NameLists.fitting_laws,
    ⟨⟨bssName 16 0, List.mem_cons_self, by decide⟩, by rfl⟩, ?_⟩
  have hshort : Short (listing crowd [bssName 11 0] []) := by
    intro a
    cases a <;> decide +kernel
  have hunits : UnitsFit wlHost (listing crowd [bssName 11 0] []) := by
    have hall : ∀ name ∈ allIfnames wlHost (listing crowd [bssName 11 0] []),
        ∀ u ∈ unitOf wlHost name, u < maxUnits := by decide +kernel
    exact hall
  have hdropped : ∀ name ∈ allIfnames wlHost (listing crowd [bssName 11 0] []), unitOf wlHost name ≠
      some 11 := by
    decide +kernel
  obtain ⟨s, hs, -, hkept⟩ :=
    eventInit_merged NameLists.fitting_laws (tableMsgs_remembers wlHost) appBitvec hshort
    hunits fun _ => .zero
  refine ⟨s, hs, fun hunion => ?_⟩
  have hos : radioOf wlHost (bssName 11 0) = some 11 := by decide
  obtain ⟨m, hget, hm⟩ :=
    hunion (bssName 11 0) 11 hos ⟨.nas, bssName 11 0, List.mem_cons_self, by decide⟩
  have hzero := hkept (bssName 11 0) 11 hos fun a hmerged => by
    obtain ⟨name, -, hname, hunit⟩ := hmerged
    exact hdropped name hname hunit
  rw [hget] at hzero
  have hlink : isset (appBitvec .nas) (Fin.ofNat _ wlcELink) = true :=
    (isset_setEventmask _ _).mpr ⟨wlcELink, by decide, rfl⟩
  have hset : isset m (Fin.ofNat _ wlcELink) = true :=
    (hm _).mpr ⟨.nas, ⟨bssName 11 0, List.mem_cons_self, by decide⟩, hlink⟩
  have hm0 : m = Mask.zero := Option.some.inj hzero
  rw [hm0, isset_zero] at hset
  cases hset

end BroadcomWl.Eapd
