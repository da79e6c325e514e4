import Mathlib
import BroadcomWl.Eapd.Workspace

/-!
# Interfaces that come and go

`eapd_add_dif` writes the name of an interface into the list of `nas` and links a control block
before it opens the sockets and lets stations join. If one of these fails there is no way back.
`eapd_delete_dif` looks for a block with the name of the interface, but blocks have the names of
bridges, and removes the name that the operating system has for the interface, but the list holds
the names of the configuration.

`add_to_list` and its siblings are in `libshared`; `NameLists.Laws` says what is used of them.

**`dif_atomic_iff`.** A call that fails leaves everything as it was exactly if it fails before the
list is written (`addedNames`), or there is nothing to be seen of it. A successful call is undone
exactly if the three names of the interface are the same and there was no block of this name, or the
list refuses the name. -/

namespace BroadcomWl.Eapd

open BroadcomWl.Lib
open BroadcomWl.Nas (Bytes)

/-! ## What a call does -/

section

variable (k : Nat → Answer) (h : Host) (ifname : Bytes) (w : Wksp)

/-- There is a control block of this name. -/
def HasBlock (name : Bytes) (w : Wksp) : Prop := name ∈ (w.app .nas).cb.map Cb.ifname

instance (name : Bytes) : Decidable (HasBlock name w) := inferInstanceAs (Decidable (_ ∈ _))

/-- The interface is added: its name in the configuration, and the name of its bridge. -/
def addedNames : Option (Bytes × Bytes) :=
  (h.nvifnameToOsifname ifname).bind fun osName =>
    if h.wlProbe osName then
      (h.getInstance osName).bind fun unit =>
        if h.nasAppEnabled unit then
          (interfaceNames h ifname (w.app .nas).ifnames).bind fun names =>
            if HasBlock names.2 w ∨ h.malloc then some names else none
        else none
    else none

/-- What `add_to_list` answers for the name. -/
def addAnswer (nvName : Bytes) : Bool × List Bytes :=
  h.lists.addToList nvName (w.app .nas).ifnames ifnamesSize

/-- After the two lists are written. -/
def added (nvName lanifname : Bytes) : Wksp :=
  w.updApp .nas fun st =>
    { st with
      ifnames := (addAnswer h w nvName).2
      cb := if lanifname ∈ st.cb.map Cb.ifname then st.cb else ⟨lanifname, none, 0⟩ :: st.cb }

/-- After the sockets are opened. -/
def opened (name : Bytes) : Bool × Wksp :=
  let (ok, cbs, s) := openNamed k h name (w.app .nas).cb w.sockets
  (ok, { w.updApp .nas fun st => { st with cb := cbs } with sockets := s })

variable {k h ifname w} {nvName lanifname : Bytes}

theorem any_ifname {cbs : List Cb} {name : Bytes} :
    (cbs.any fun cb => cb.ifname == name) = true ↔ name ∈ cbs.map Cb.ifname := by
  simp

theorem added_old (hold : HasBlock lanifname w) :
    added h w nvName lanifname = w.updApp .nas fun st =>
      { st with ifnames := (addAnswer h w nvName).2 } := by
  unfold added Wksp.updApp
  dsimp only
  rw [if_pos (by exact hold)]

theorem added_new (hnew : ¬HasBlock lanifname w) :
    added h w nvName lanifname = w.updApp .nas fun st =>
      { st with ifnames := (addAnswer h w nvName).2, cb := ⟨lanifname, none, 0⟩ :: st.cb } := by
  unfold added Wksp.updApp
  dsimp only
  rw [if_neg (by exact hnew)]

theorem eapdAddDif_none (hnone : addedNames h ifname w = none) :
    eapdAddDif k h ifname w = (false, w) := by
  unfold addedNames at hnone
  unfold eapdAddDif
  cases hos : h.nvifnameToOsifname ifname with
  | none => rfl
  | some osName =>
      simp only [hos, Option.bind_some] at hnone ⊢
      by_cases hprobe : h.wlProbe osName = true
      · simp only [hprobe, Bool.not_true, Bool.false_eq_true, if_false, if_true] at hnone ⊢
        cases hunit : h.getInstance osName with
        | none => rfl
        | some unit =>
            simp only [hunit, Option.bind_some] at hnone ⊢
            by_cases henabled : h.nasAppEnabled unit = true
            · simp only [henabled, Bool.not_true, Bool.false_eq_true, if_false, if_true] at hnone ⊢
              unfold eapdAddInterface
              cases hnames : interfaceNames h ifname (w.app .nas).ifnames with
              | none => simp [hnames]
              | some names =>
                  simp only [hnames, Option.bind_some] at hnone
                  split_ifs at hnone with hblock
                  rw [not_or] at hblock
                  simp only [hnames, reduceCtorEq, decide_false, Bool.false_and,
                    Bool.false_eq_true, if_false]
                  rw [if_neg (by rw [any_ifname]; exact hblock.1), if_neg hblock.2]
            · simp [henabled]
      · simp [hprobe]

theorem addedNames_some (hsome : addedNames h ifname w = some (nvName, lanifname)) :
    ∃ osName unit, h.nvifnameToOsifname ifname = some osName ∧ h.wlProbe osName = true ∧
      h.getInstance osName = some unit ∧ h.nasAppEnabled unit = true ∧
      interfaceNames h ifname (w.app .nas).ifnames = some (nvName, lanifname) ∧
      (HasBlock lanifname w ∨ h.malloc = true) := by
  unfold addedNames at hsome
  simp only [Option.bind_eq_some_iff, Option.ite_none_right_eq_some] at hsome
  obtain ⟨osName, hos, hprobe, unit, hunit, henabled, names, hnames, hblock, heq⟩ := hsome
  cases heq
  exact ⟨osName, unit, hos, hprobe, hunit, henabled, hnames, hblock⟩

theorem eapdAddDif_some (hsome : addedNames h ifname w = some (nvName, lanifname)) :
    eapdAddDif k h ifname w =
      ((opened k h (added h w nvName lanifname) lanifname).1 && h.allowJoin ifname,
        (opened k h (added h w nvName lanifname) lanifname).2) := by
  obtain ⟨osName, unit, hos, hprobe, hunit, henabled, hnames, hblock⟩ := addedNames_some hsome
  unfold eapdAddDif eapdAddInterface
  simp only [hos, hprobe, hunit, henabled, hnames, Bool.not_true, Bool.false_eq_true, if_false,
    reduceCtorEq,
    decide_false, Bool.false_and]
  by_cases hold : HasBlock lanifname w
  · rw [if_pos (any_ifname.mpr hold), added_old hold]
    rfl
  · rw [if_neg (by rw [any_ifname]; exact hold), if_pos (hblock.resolve_left hold), added_new hold]
    rfl

theorem addedNames_absent (hl : h.lists.Laws)
    (hsome : addedNames h ifname w = some (nvName, lanifname)) :
    nvName ∉ (w.app .nas).ifnames := by
  obtain ⟨osName, unit, -, -, -, -, hnames, -⟩ := addedNames_some hsome
  unfold interfaceNames at hnames
  simp only [Option.bind_eq_some_iff, Option.ite_none_right_eq_some, Option.ite_none_left_eq_some]
    at hnames
  obtain ⟨osName', -, -, nvName', -, habsent, hlan⟩ := hnames
  have heq : nvName' = nvName := by
    split_ifs at hlan
    · cases hlan
      rfl
    · obtain ⟨lan, -, heq⟩ := Option.map_eq_some_iff.mp hlan
      cases heq
      rfl
  rw [← heq, ← hl.find]
  exact habsent

theorem addAnswer_absent (hl : h.lists.Laws) (habsent : nvName ∉ (w.app .nas).ifnames) :
    (addAnswer h w nvName).2 =
      if (addAnswer h w nvName).1 then (w.app .nas).ifnames ++ [nvName]
      else (w.app .nas).ifnames := by
  unfold addAnswer
  split_ifs with htaken
  · exact hl.add_taken nvName _ _ habsent htaken
  · exact hl.add_refused nvName _ _ (eq_false_of_ne_true htaken)

end

/-! ## Sockets as they were -/

/-- The same sockets are in use, and nothing about them has changed. -/
def SameSockets (s s' : Sockets) : Prop :=
  ∀ i, (s.Live i ↔ s'.Live i) ∧ (s.Live i → s'.brcmSocket i = s.brcmSocket i)

/-- There is no socket of this name, and none can be opened. -/
def NoBrcm (k : Nat → Answer) (name : Bytes) (s : Sockets) : Prop :=
  eapdFindBrcm name s = none ∧ (freeBrcm s = none ∨ (k s.asked).Fails)

section

variable {k : Nat → Answer} {s : Sockets} {name : Bytes}

instance : Decidable (NoBrcm k name s) := inferInstanceAs (Decidable (_ ∧ (_ ∨ _)))

theorem SameSockets.refl : SameSockets s s := fun _ => ⟨Iff.rfl, fun _ => rfl⟩

theorem eapdBrcmOpen_none (i : BrcmSlot) : (eapdBrcmOpen k i s).1 = none ↔ (k s.asked).Fails := by
  rw [← openSocket_spec.1]
  unfold eapdBrcmOpen
  cases h : (openSocket k s).1 with
  | none => simp [h]
  | some fd => simp [h]

theorem eapdAddBrcm_none :
    ((eapdAddBrcm k name s).1 = none ↔ NoBrcm k name s) ∧
      ((eapdAddBrcm k name s).1 = none → SameSockets s (eapdAddBrcm k name s).2) := by
  unfold eapdAddBrcm NoBrcm
  cases hfind : eapdFindBrcm name s with
  | some i => simp
  | none =>
      cases hfree : freeBrcm s with
      | none => simp [SameSockets.refl]
      | some p =>
          obtain ⟨i, s'⟩ := p
          obtain ⟨hfree, hlt, -, hs', hothers⟩ := freeBrcm_some hfree
          have hasked : s'.asked = s.asked := by rw [hs']
          simp only [eapdBrcmOpen_none, reduceCtorEq, false_or, true_and]
          refine ⟨by simp [Sockets.upd, hasked], fun hfails => ?_⟩
          rw [← openSocket_spec.1] at hfails
          unfold eapdBrcmOpen
          simp only [hfails]
          intro j
          by_cases hj : j = i
          · subst hj
            refine ⟨iff_of_false hfree fun hlive => ?_, fun hlive => absurd hlive hfree⟩
            have hpos := hlive.2
            rw [upd_self] at hpos
            simp [BrcmSocket.zero] at hpos
          · have hsame : s'.brcmSocket j = s.brcmSocket j := by rw [hs']
            unfold Sockets.Live at hothers ⊢
            simp only [upd_count, upd_of_ne hj, openSocket_count, openSocket_brcmSocket]
            exact ⟨(hothers j hj).symm, fun _ => hsame⟩

theorem eapdAddBrcm_some {i : BrcmSlot} (h : (eapdAddBrcm k name s).1 = some i) :
    (eapdAddBrcm k name s).2.Live i ∧
      (s.Live i → ((eapdAddBrcm k name s).2.brcmSocket i).inuseCount ≠
        (s.brcmSocket i).inuseCount) := by
  unfold eapdAddBrcm at h ⊢
  cases hfind : eapdFindBrcm name s with
  | some j =>
      simp only [hfind, Option.some.injEq] at h ⊢
      subst h
      have hlive := (eapdFindBrcm_some hfind).1
      unfold Sockets.Live at hlive ⊢
      simp [hlive.1]
  | none =>
      simp only [hfind] at h ⊢
      cases hfree : freeBrcm s with
      | none => simp [hfree] at h
      | some p =>
          obtain ⟨j, s'⟩ := p
          simp only [hfree] at h ⊢
          obtain ⟨hfree, hlt, -, hs', hothers⟩ := freeBrcm_some hfree
          unfold eapdBrcmOpen at h ⊢
          cases hopen :
              (openSocket k (s'.upd j fun _ => { BrcmSocket.zero with ifname := name })).1 with
          | none => simp [hopen] at h
          | some fd =>
              simp only [hopen, Option.some.injEq] at h ⊢
              subst h
              refine ⟨?_, fun hlive => absurd hlive hfree⟩
              unfold Sockets.Live
              simp [hlt]

variable {cap : Nat} {preauth : Bool} {cb : Cb}

@[simp] theorem openBlock_ifname : (openBlock k cap preauth cb s).2.1.ifname = cb.ifname := by
  unfold openBlock
  cases h : eapdAddBrcm k cb.ifname s with
  | mk i s' =>
      cases i with
      | none => rfl
      | some i => cases preauth <;> rfl

theorem openBlock_false : (openBlock k cap preauth cb s).1 = false ↔ NoBrcm k cb.ifname s := by
  rw [← eapdAddBrcm_none.1]
  unfold openBlock
  cases h : eapdAddBrcm k cb.ifname s with
  | mk i s' =>
      cases i with
      | none => simp
      | some i => cases preauth <;> simp

/-- Opening the sockets of a block can be seen, unless the block had no socket and does not
get one. -/
theorem openBlock_same :
    (openBlock k cap preauth cb s).2.1 = cb ∧ SameSockets s (openBlock k cap preauth cb s).2.2 ↔
      NoBrcm k cb.ifname s ∧ cb.brcmSocket = none := by
  rw [← eapdAddBrcm_none.1]
  have hnone := @eapdAddBrcm_none k s cb.ifname
  have hsome := @eapdAddBrcm_some k s cb.ifname
  unfold openBlock
  generalize eapdAddBrcm k cb.ifname s = r at hnone hsome ⊢
  obtain ⟨r, s'⟩ := r
  cases r with
  | none =>
      obtain ⟨name, brcmSocket, fd⟩ := cb
      simp only [Cb.mk.injEq, true_and, and_true, and_iff_left (hnone.2 rfl), eq_comm]
  | some i =>
      obtain ⟨hlive, hcount⟩ := hsome rfl
      refine iff_of_false (fun hsame => ?_) (fun hno => by simp at hno)
      have hi := hsame.2 i
      have hflag : ∀ s'' : Sockets, s''.brcmSocketCount = s'.brcmSocketCount →
          s''.brcmSocket = (s'.upd i fun b => { b with flag := b.flag ||| cap }).brcmSocket →
            ¬((s.Live i ↔ s''.Live i) ∧ (s.Live i → s''.brcmSocket i = s.brcmSocket i)) := by
        intro s'' hcount'' hbrcm hi
        have hlive'' : s''.Live i := by
          unfold Sockets.Live at hlive ⊢
          rw [hcount'', hbrcm, upd_self]
          exact hlive
        have hold := hi.1.mpr hlive''
        apply hcount hold
        rw [← hi.2 hold, hbrcm, upd_self]
      cases preauth with
      | false =>
          refine absurd hi (hflag _ ?_ ?_)
          · rfl
          · rfl
      | true =>
          refine absurd hi (hflag _ ?_ ?_)
          · exact openSocket_count
          · exact openSocket_brcmSocket

theorem openNamed_names (h : Host) (cbs : List Cb) (s : Sockets) :
    (openNamed k h name cbs s).2.1.map Cb.ifname = cbs.map Cb.ifname := by
  induction cbs with
  | nil => rfl
  | cons cb cbs ih =>
      unfold openNamed
      split
      · simp [nasOpenDifSockets]
      · simpa using ih

theorem openNamed_same (h : Host) {cbs : List Cb} (hname : name ∈ cbs.map Cb.ifname) :
    (openNamed k h name cbs s).2.1 = cbs ∧ SameSockets s (openNamed k h name cbs s).2.2 ↔
      NoBrcm k name s ∧ ∃ cb, cbs.find? (fun cb => cb.ifname == name) = some cb ∧
      cb.brcmSocket = none := by
  induction cbs with
  | nil => simp at hname
  | cons cb cbs ih =>
      unfold openNamed
      by_cases heq : cb.ifname = name
      · rw [if_pos heq, List.find?_cons_of_pos (by simpa using heq)]
        subst heq
        have hsame := @openBlock_same k s App.nas.cap h.bcmwpa2 cb
        simpa [nasOpenDifSockets] using hsame
      · rw [if_neg heq, List.find?_cons_of_neg (by simpa using heq)]
        rw [List.map_cons, List.mem_cons] at hname
        simpa using ih (hname.resolve_left (Ne.symm heq))

end

/-! ## Add and delete -/

section

variable {k : Nat → Answer} {h : Host} {ifname nvName lanifname : Bytes} {w : Wksp}

/-- The lists of `nas` and its sockets are as they were. -/
def SameNas (w w' : Wksp) : Prop := w'.app .nas = w.app .nas ∧ SameSockets w.sockets w'.sockets

/-- There is nothing to be seen of the call: `add_to_list` refuses the name, and there is a block of
the bridge that had no socket and does not get one. -/
def Unseen (k : Nat → Answer) (h : Host) (ifname : Bytes) (w : Wksp) : Prop :=
  ∃ nvName lanifname cb, addedNames h ifname w = some (nvName, lanifname) ∧
    (addAnswer h w nvName).1 = false ∧
    (w.app .nas).cb.find? (fun cb => cb.ifname == lanifname) = some cb ∧ cb.brcmSocket = none ∧
    NoBrcm k lanifname w.sockets

/-- The names and the blocks of `nas` are the previous ones. -/
def Restored (w w' : Wksp) : Prop :=
  (w'.app .nas).ifnames = (w.app .nas).ifnames ∧
    ((w'.app .nas).cb.map Cb.ifname).Perm ((w.app .nas).cb.map Cb.ifname)

/-- The call adds a block of the interface's own name, and the name of the operating system is the
one that goes into the list; or, if `add_to_list` refuses the name, the call adds nothing or removes
only what it added. -/
def Inverse (h : Host) (ifname : Bytes) (w : Wksp) : Prop :=
  ∃ osName nvName lanifname, h.nvifnameToOsifname ifname = some osName ∧
    addedNames h ifname w = some (nvName, lanifname) ∧
    (¬HasBlock lanifname w ∧ lanifname = ifname ∧
        (if (addAnswer h w nvName).1 then osName = nvName else osName ∉ (w.app .nas).ifnames) ∨
      HasBlock lanifname w ∧ ¬HasBlock ifname w ∧ (addAnswer h w nvName).1 = false)

theorem sameNas_opened (nvName lanifname : Bytes) :
    SameNas w (opened k h (added h w nvName lanifname) lanifname).2 ↔
      (addAnswer h w nvName).2 = (w.app .nas).ifnames ∧
        (openNamed k h lanifname ((added h w nvName lanifname).app .nas).cb w.sockets).2.1 =
          (w.app .nas).cb ∧
        SameSockets w.sockets (openNamed k h lanifname ((added h w nvName lanifname).app .nas).cb
          w.sockets).2.2 := by
  unfold SameNas opened
  dsimp only
  rw [updApp_self, ← and_assoc]
  refine and_congr ?_ Iff.rfl
  have hsockets : (added h w nvName lanifname).sockets = w.sockets := rfl
  rw [hsockets]
  generalize
    (openNamed k h lanifname ((added h w nvName lanifname).app .nas).cb w.sockets).2.1 = cbs
  unfold added
  rw [updApp_self]
  obtain ⟨ifnames, appSocket, cb⟩ := w.app .nas
  simp

/-- **A failed call** is not seen exactly if nothing was added, or nothing of it remains. -/
theorem sameNas_iff (hl : h.lists.Laws) (k : Nat → Answer) (ifname : Bytes) (w : Wksp) :
    SameNas w (eapdAddDif k h ifname w).2 ↔ addedNames h ifname w = none ∨ Unseen k h ifname w := by
  unfold Unseen
  cases hnames : addedNames h ifname w with
  | none =>
      rw [eapdAddDif_none hnames]
      exact iff_of_true ⟨rfl, .refl⟩ (.inl rfl)
  | some names =>
      obtain ⟨nvName, lanifname⟩ := names
      have habsent := addedNames_absent hl hnames
      rw [eapdAddDif_some hnames, sameNas_opened, addAnswer_absent hl habsent]
      by_cases hroom : (addAnswer h w nvName).1 = true
      · rw [if_pos hroom]
        refine iff_of_false (fun hno => by simpa using hno.1) ?_
        rintro (hno | ⟨nvName', lanifname', cb, heq, hno, -⟩)
        · cases hno
        · cases heq
          exact absurd hroom (ne_true_of_eq_false hno)
      · rw [if_neg hroom]
        by_cases hold : HasBlock lanifname w
        · have hsame := @openNamed_same k w.sockets lanifname h (w.app .nas).cb hold
          rw [added_old hold, updApp_self]
          dsimp only
          rw [hsame]
          constructor
          · rintro ⟨-, hno, cb, hcb, hnone⟩
            exact .inr ⟨nvName, lanifname, cb, rfl, eq_false_of_ne_true hroom, hcb, hnone, hno⟩
          · rintro (hno | ⟨nvName', lanifname', cb, heq, -, hcb, hnone, hno⟩)
            · cases hno
            · cases heq
              exact ⟨rfl, hno, cb, hcb, hnone⟩
        · rw [added_new hold, updApp_self]
          refine iff_of_false (fun hno => ?_) ?_
          · have hlength := congrArg List.length (congrArg (List.map Cb.ifname) hno.2.1)
            rw [openNamed_names] at hlength
            simp at hlength
          · rintro (hno | ⟨nvName', lanifname', cb, heq, -, hcb, -⟩)
            · cases hno
            · cases heq
              have hmem := List.mem_of_find?_eq_some hcb
              have hname := List.find?_some hcb
              exact hold (List.mem_map.mpr ⟨cb, hmem, by simpa using hname⟩)

theorem eapdDeleteDif_names {osName : Bytes} (hos : h.nvifnameToOsifname ifname = some osName) :
    ((eapdDeleteDif h ifname w).app .nas).ifnames =
        (if HasBlock ifname w then h.lists.removeFromList osName (w.app .nas).ifnames ifnamesSize
          else (w.app .nas).ifnames) ∧
      ((eapdDeleteDif h ifname w).app .nas).cb.map Cb.ifname =
        ((w.app .nas).cb.map Cb.ifname).erase ifname := by
  unfold eapdDeleteDif
  cases hfind : (w.app .nas).cb.find? fun cb => cb.ifname == ifname with
  | none =>
      have habsent : ¬HasBlock ifname w := by
        intro hblock
        obtain ⟨cb, hmem, hname⟩ := List.mem_map.mp hblock
        exact List.find?_eq_none.mp hfind cb hmem (by simpa using hname)
      rw [if_neg habsent, List.erase_of_not_mem habsent]
      exact ⟨rfl, rfl⟩
  | some cb =>
      have hblock : HasBlock ifname w :=
        List.mem_map.mpr ⟨cb, List.mem_of_find?_eq_some hfind, by simpa using List.find?_some hfind⟩
      rw [if_pos hblock]
      simp only [hos, updApp_self]
      refine ⟨trivial, ?_⟩
      rw [List.erase_eq_eraseP', List.eraseP_map]
      rfl

theorem erase_append_iff {name added : Bytes} {l : List Bytes} (habsent : added ∉ l) :
    (l ++ [added]).erase name = l ↔ name = added := by
  constructor
  · intro heq
    by_contra hne
    have hmem : added ∈ (l ++ [added]).erase name :=
      (List.mem_erase_of_ne (Ne.symm hne)).mpr (by simp)
    rw [heq] at hmem
    exact habsent hmem
  · rintro rfl
    rw [List.erase_append_right _ habsent]
    simp

theorem opened_ifnames :
    ((opened k h (added h w nvName lanifname) lanifname).2.app .nas).ifnames =
      (addAnswer h w nvName).2 := by
  unfold opened added
  simp

theorem opened_blocks :
    ((opened k h (added h w nvName lanifname) lanifname).2.app .nas).cb.map Cb.ifname =
      if HasBlock lanifname w then (w.app .nas).cb.map Cb.ifname
      else lanifname :: (w.app .nas).cb.map Cb.ifname := by
  unfold opened
  dsimp only
  rw [updApp_self]
  dsimp only
  rw [openNamed_names]
  by_cases hold : HasBlock lanifname w
  · rw [added_old hold, if_pos hold, updApp_self]
  · rw [added_new hold, if_neg hold, updApp_self]
    rfl

theorem inverse_iff {osName : Bytes} (hos : h.nvifnameToOsifname ifname = some osName)
    (hsome : addedNames h ifname w = some (nvName, lanifname)) :
    Inverse h ifname w ↔
      ¬HasBlock lanifname w ∧ lanifname = ifname ∧
        (if (addAnswer h w nvName).1 then osName = nvName else osName ∉ (w.app .nas).ifnames) ∨
      HasBlock lanifname w ∧ ¬HasBlock ifname w ∧ (addAnswer h w nvName).1 = false := by
  unfold Inverse
  rw [hos, hsome]
  constructor
  · rintro ⟨osName', nvName', lanifname', hos', heq, hcase⟩
    cases hos'
    cases heq
    exact hcase
  · intro hcase
    exact ⟨osName, nvName, lanifname, rfl, rfl, hcase⟩

/-- **A call that is undone.** -/
theorem restored_iff (hl : h.lists.Laws)
    (hsome : addedNames h ifname w = some (nvName, lanifname)) :
    Restored w (eapdDeleteDif h ifname (eapdAddDif k h ifname w).2) ↔ Inverse h ifname w := by
  obtain ⟨osName, unit, hos, -⟩ := addedNames_some hsome
  have habsent := addedNames_absent hl hsome
  have hnames := @opened_ifnames k h nvName lanifname w
  have hblocks := @opened_blocks k h nvName lanifname w
  rw [eapdAddDif_some hsome]
  generalize (opened k h (added h w nvName lanifname) lanifname).2 = w' at hnames hblocks ⊢
  obtain ⟨hdelNames, hdelBlocks⟩ := @eapdDeleteDif_names h ifname w' osName hos
  have hblock : HasBlock ifname w' ↔
      HasBlock ifname w ∨ ¬HasBlock lanifname w ∧ lanifname = ifname := by
    unfold HasBlock at hblocks ⊢
    rw [hblocks]
    split_ifs with hold
    · simp [hold]
    · simp [hold, or_comm, eq_comm]
  unfold Restored
  rw [inverse_iff hos hsome, hdelNames, hdelBlocks, hnames, hblocks, hl.remove,
    addAnswer_absent hl habsent]
  by_cases hold : HasBlock lanifname w
  · simp only [hold, not_true, false_and, or_false, false_or, true_and, if_true] at hblock ⊢
    by_cases hif : HasBlock ifname w
    · -- a block is removed, but none was added
      refine iff_of_false (fun hno => ?_) (fun hno => hno.1 hif)
      have hlength := hno.2.length_eq
      have hpos := List.length_pos_of_mem hif
      rw [List.length_erase_of_mem hif] at hlength
      omega
    · rw [if_neg (mt hblock.mp hif), List.erase_of_not_mem hif]
      split_ifs with hroom
      · simp [hroom]
      · simp [hroom, hif]
  · simp only [hold, not_false_eq_true, true_and, false_and, or_false, if_false] at hblock ⊢
    by_cases hlan : lanifname = ifname
    · subst hlan
      rw [if_pos (hblock.mpr (.inr rfl)), List.erase_cons_head]
      split_ifs with hroom
      · simp [erase_append_iff habsent]
      · simp [List.erase_eq_self_iff]
    · -- the block that was added stays
      refine iff_of_false (fun hno => hold ?_) (fun hno => hlan hno.1)
      rw [List.erase_cons_tail (by simpa using hlan)] at hno
      exact hno.2.mem_iff.mp List.mem_cons_self

end

/-- **Adding and deleting an interface.** -/
theorem dif_atomic_iff {h : Host} (hl : h.lists.Laws) (k : Nat → Answer) (ifname : Bytes)
    (w : Wksp) :
    ((eapdAddDif k h ifname w).1 = false →
      (SameNas w (eapdAddDif k h ifname w).2 ↔
        addedNames h ifname w = none ∨ Unseen k h ifname w)) ∧
    ((eapdAddDif k h ifname w).1 = true →
      (Restored w (eapdDeleteDif h ifname (eapdAddDif k h ifname w).2) ↔ Inverse h ifname w)) := by
  refine ⟨fun _ => sameNas_iff hl k ifname w, fun htrue => ?_⟩
  cases hnames : addedNames h ifname w with
  | none =>
      rw [eapdAddDif_none hnames] at htrue
      cases htrue
  | some names => exact restored_iff hl hnames

/-! ## An interface of the bridge -/

def wl0 : Bytes := [119, 108, 48]
def wl01 : Bytes := [119, 108, 48, 46, 49]
def br0 : Bytes := [98, 114, 48]

/-- Every socket can be opened. -/
def openAll (n : Nat) : Answer := ⟨some (3 + n), true, true⟩

/-- Radio 0 with a second interface, both on the bridge; `join` says whether stations may join. -/
def bridgeHost (join : Bool) : Host where
  bcmwpa2 := false
  nvifnameToOsifname name := if name = wl0 then some [101, 116, 104, 49] else some name
  osifnameToNvifname := some
  wlProbe _ := true
  getInstance _ := some 0
  wlHwaddr _ := []
  isPsta _ := false
  dpstaIfnames := []
  getIfnameByWlmac _ _ := some br0
  malloc := true
  nasAppEnabled _ := true
  allowJoin _ := join
  lists := .fitting

/-- A radio on the bridge, and a second interface that is not. -/
def repeaterHost : Host :=
  { bridgeHost true with bcmwpa2 := true, isPsta := fun name => name == wl01 }

/-- After `eapd -nas wl0` has started. -/
def bridgeWksp : Wksp :=
  (run (procStep openAll) Proc.init [.addInterface (bridgeHost true) .nas wl0, .start true]).w

set_option maxRecDepth 100000 in
/-- A name that is there already changes nothing; an interface that is not on the bridge comes and
goes. -/
theorem dif_atomic_repeater :
    SameNas bridgeWksp (eapdAddDif openAll (bridgeHost true) wl0 bridgeWksp).2 ∧
      Restored bridgeWksp
        (eapdDeleteDif repeaterHost wl01 (eapdAddDif openAll repeaterHost wl01 bridgeWksp).2) := by
  have hfails : (eapdAddDif openAll (bridgeHost true) wl0 bridgeWksp).1 = false := by decide +kernel
  have hnone : addedNames (bridgeHost true) wl0 bridgeWksp = none := by decide +kernel
  have hworks : (eapdAddDif openAll repeaterHost wl01 bridgeWksp).1 = true := by decide +kernel
  have hsome : addedNames repeaterHost wl01 bridgeWksp = some (wl01, wl01) := by decide +kernel
  have hblock : ¬HasBlock wl01 bridgeWksp := by decide +kernel
  have htaken : (addAnswer repeaterHost bridgeWksp wl01).1 = true := by decide +kernel
  have hinverse : Inverse repeaterHost wl01 bridgeWksp :=
    ⟨wl01, wl01, wl01, by decide, hsome, .inl ⟨hblock, rfl, by rw [if_pos htaken]⟩⟩
  exact ⟨((dif_atomic_iff NameLists.fitting_laws openAll wl0 bridgeWksp).1 hfails).mpr (.inl hnone),
    ((dif_atomic_iff NameLists.fitting_laws openAll wl01 bridgeWksp).2 hworks).mpr hinverse⟩

set_option maxRecDepth 100000 in
theorem bridgeWksp_names :
    (bridgeWksp.app .nas).ifnames = [wl0] ∧
      (eapdAddDif openAll (bridgeHost false) wl01 bridgeWksp).1 = false ∧
      ((eapdAddDif openAll (bridgeHost false) wl01 bridgeWksp).2.app .nas).ifnames = [wl0, wl01] ∧
      (eapdAddDif openAll (bridgeHost true) wl01 bridgeWksp).1 = true ∧
      ((eapdDeleteDif (bridgeHost true) wl01
        (eapdAddDif openAll (bridgeHost true) wl01 bridgeWksp).2).app
        .nas).ifnames = [wl0, wl01] := by
  decide +kernel

/-- **A failed call leaves the name behind, and a successful call is not undone.** -/
theorem name_left_behind :
    ((eapdAddDif openAll (bridgeHost false) wl01 bridgeWksp).1 = false ∧
      ¬SameNas bridgeWksp (eapdAddDif openAll (bridgeHost false) wl01 bridgeWksp).2) ∧
    ((eapdAddDif openAll (bridgeHost true) wl01 bridgeWksp).1 = true ∧
      ¬Restored bridgeWksp
        (eapdDeleteDif (bridgeHost true) wl01
          (eapdAddDif openAll (bridgeHost true) wl01 bridgeWksp).2)) := by
  obtain ⟨hnames, hfails, hafter, hworks, hdeleted⟩ := bridgeWksp_names
  refine ⟨⟨hfails, fun hsame => ?_⟩, hworks, fun hrestored => ?_⟩
  · have heq := congrArg AppState.ifnames hsame.1
    rw [hnames, hafter] at heq
    exact absurd heq (by decide)
  · have heq := hrestored.1
    rw [hnames, hdeleted] at heq
    exact absurd heq (by decide)

end BroadcomWl.Eapd
