import Mathlib
import BroadcomWl.Eapd.DynamicInterface

/-!
# Who owns which socket

**Bottom.** `Shares P M s`: the slots of the sockets that are shared have the reference counts that
the references `P` demand, and their descriptors and those of `M` are different ones that are open.
Each function that opens or closes sockets has a rule that says what it does to `P` and `M`.

**Top.** In a state between two events the references are those of the control blocks, and the other
descriptors are those that stand in the workspace (`Owned`).

**`sockets_owned`.** This is so in every run in which `eapd` gets through the control blocks of
`nas` when it starts, and every interface that is added later is the first one of its bridge, gets a
socket and one for pre-authentication. Elsewhere a control block keeps the zero of `memset` for a
descriptor, or is counted twice. -/

namespace BroadcomWl.Eapd

open BroadcomWl.Lib
open BroadcomWl.Nas (Bytes)

/-! ## Sums over a table of which one entry changes -/

section

variable {ι α β : Type} [Fintype ι] [DecidableEq ι] (g : α → Multiset β) (f : ι → α)

theorem sum_split (i : ι) : ∑ j, g (f j) = g (f i) + ∑ j ∈ Finset.univ.erase i, g (f j) :=
  (Finset.add_sum_erase Finset.univ (fun j => g (f j)) (Finset.mem_univ i)).symm

theorem sum_update (i : ι) (x : α) :
    ∑ j, g (Function.update f i x j) = g x + ∑ j ∈ Finset.univ.erase i, g (f j) := by
  rw [sum_split g _ i, Function.update_self]
  congr 1
  apply Finset.sum_congr rfl
  intro j hj
  rw [Function.update_of_ne (Finset.ne_of_mem_erase hj)]

end

/-! ## Shared sockets -/

/-- The descriptor of a slot in use. -/
def slotFd (b : BrcmSocket) : Multiset Int := if 0 < b.inuseCount then {b.drvSocket} else 0

/-- A descriptor, unless it is negative. -/
def openFd (fd : Int) : Multiset Int := if 0 ≤ fd then {fd} else 0

def Sockets.fds (s : Sockets) : Multiset Int := ∑ i, slotFd (s.brcmSocket i)

/-- The references are slots with the name under which they were asked for. -/
structure Shares (P : Multiset (BrcmSlot × Bytes)) (M : Multiset Int) (s : Sockets) : Prop where
  count : ∀ i, (s.brcmSocket i).inuseCount = (P.map Prod.fst).count i
  unused : ∀ i : BrcmSlot, s.brcmSocketCount ≤ i.val → (s.brcmSocket i).inuseCount = 0
  named : ∀ p ∈ P, (s.brcmSocket p.1).ifname = p.2
  distinct : ∀ i j, s.Live i → s.Live j → (s.brcmSocket i).ifname = (s.brcmSocket j).ifname → i = j
  held : Held (s.fds + M) s.log

section

variable {k : Nat → Answer} {P : Multiset (BrcmSlot × Bytes)} {M N : Multiset Int} {s : Sockets}

theorem Shares.live_iff (h : Shares P M s) (i : BrcmSlot) :
    s.Live i ↔ 0 < (s.brcmSocket i).inuseCount := by
  constructor
  · intro hlive
    exact hlive.2
  · intro hpos
    refine ⟨?_, hpos⟩
    by_contra hge
    have hzero := h.unused i (by omega)
    omega

theorem Shares.live (h : Shares P M s) {p : BrcmSlot × Bytes} (hp : p ∈ P) : s.Live p.1 := by
  rw [h.live_iff, h.count]
  exact Multiset.count_pos.mpr (Multiset.mem_map_of_mem Prod.fst hp)

theorem Shares.others {s' : Sockets} (h : Shares P M s)
    (hcount : s'.brcmSocketCount = s.brcmSocketCount) (hbrcm : s'.brcmSocket = s.brcmSocket)
    (hheld : Held (s.fds + N) s'.log) : Shares P N s' where
  count := by rw [hbrcm]; exact h.count
  unused := by rw [hbrcm, hcount]; exact h.unused
  named := by rw [hbrcm]; exact h.named
  distinct := by
    unfold Sockets.Live
    rw [hbrcm, hcount]
    exact h.distinct
  held := by
    unfold Sockets.fds at hheld ⊢
    rw [hbrcm]
    exact hheld

theorem Shares.mono (h : Shares P M s) (hle : N ≤ M) : Shares P N s :=
  ⟨h.count, h.unused, h.named, h.distinct, h.held.mono (add_le_add_right hle _)⟩

@[simp] theorem openFd_neg_one : openFd (-1) = 0 := rfl

theorem openFd_natCast {fd : Int} (h : 0 ≤ fd) : openFd fd = {fd} := if_pos h

theorem OpenLog.held {log log' : List (Access Int)} {r : Option Int} (h : OpenLog log r log')
    (hM : Held M log) :
    Held (openFd (fdOf r) + M) log' := by
  cases h with
  | refused => simpa [fdOf] using hM
  | closed fd => simpa [fdOf] using (Held.alloc hM).release
  | opened fd hfd =>
      rw [fdOf, Option.getD_some, openFd_natCast hfd]
      exact hM.alloc

theorem OpenLog.nonneg {log log' : List (Access Int)} {fd : Int} (h : OpenLog log (some fd) log') :
    0 ≤ fd := by
  cases h
  assumption

/-- **A socket is opened.** -/
theorem Shares.openSocket (h : Shares P M s) :
    Shares P (openFd (fdOf (openSocket k s).1) + M) (openSocket k s).2 := by
  refine h.others openSocket_count openSocket_brcmSocket ?_
  rw [add_left_comm]
  exact openSocket_spec.2.2.2.held h.held

/-- **A descriptor is closed.** -/
theorem Shares.closeFd {fd : Int} (h : Shares P (openFd fd + M) s) : Shares P M (closeFd fd s) := by
  unfold Eapd.closeFd
  have hheld := h.held
  unfold openFd at hheld
  split_ifs at hheld ⊢ with hfd
  · refine h.others rfl rfl ?_
    rw [add_left_comm, Multiset.singleton_add] at hheld
    exact hheld.release
  · rw [zero_add] at hheld
    exact h.others rfl rfl hheld

/-- The descriptors of the other slots. -/
def Sockets.otherFds (s : Sockets) (i : BrcmSlot) : Multiset Int :=
  ∑ j ∈ Finset.univ.erase i, slotFd (s.brcmSocket j)

theorem fds_split (s : Sockets) (i : BrcmSlot) : s.fds = slotFd (s.brcmSocket i) + s.otherFds i :=
  sum_split slotFd s.brcmSocket i

theorem Shares.change {s' : Sockets} {P' : Multiset (BrcmSlot × Bytes)} (h : Shares P M s)
    {i : BrcmSlot} {b : BrcmSocket} (hbrcm : s'.brcmSocket = Function.update s.brcmSocket i b)
    (hgrows : s.brcmSocketCount ≤ s'.brcmSocketCount) (hi : i.val < s'.brcmSocketCount)
    (hcount : b.inuseCount = (P'.map Prod.fst).count i)
    (hothers : ∀ j, j ≠ i → (P'.map Prod.fst).count j = (P.map Prod.fst).count j)
    (hnamed : ∀ p ∈ P', p.1 = i ∧ b.ifname = p.2 ∨ p.1 ≠ i ∧ p ∈ P)
    (hdistinct : 0 < b.inuseCount → ∀ j, j ≠ i → s.Live j → (s.brcmSocket j).ifname ≠ b.ifname)
    (hheld : Held (slotFd b + s.otherFds i + N) s'.log) : Shares P' N s' := by
  have hself : s'.brcmSocket i = b := by rw [hbrcm, Function.update_self]
  have hother {j : BrcmSlot} (hj : j ≠ i) : s'.brcmSocket j = s.brcmSocket j := by
    rw [hbrcm, Function.update_of_ne hj]
  have hlive {j : BrcmSlot} (hj : j ≠ i) (hl : s'.Live j) : s.Live j := by
    rw [h.live_iff, ← hother hj]
    exact hl.2
  refine ⟨fun j => ?_, fun j hj => ?_, fun p hp => ?_, fun j l hj hl heq => ?_, ?_⟩
  · by_cases hji : j = i
    · rw [hji, hself, hcount]
    · rw [hother hji, h.count, hothers j hji]
  · have hji : j ≠ i := by
      rintro rfl
      omega
    rw [hother hji]
    exact h.unused j (by omega)
  · rcases hnamed p hp with ⟨heq, hname⟩ | ⟨hne, hold⟩
    · rw [heq, hself, hname]
    · rw [hother hne]
      exact h.named p hold
  · by_cases hji : j = i
    · by_cases hli : l = i
      · rw [hji, hli]
      · subst hji
        rw [hself, hother hli] at heq
        exact absurd heq.symm (hdistinct (by rw [← hself]; exact hj.2) l hli (hlive hli hl))
    · by_cases hli : l = i
      · subst hli
        rw [hself, hother hji] at heq
        exact absurd heq (hdistinct (by rw [← hself]; exact hl.2) j hji (hlive hji hj))
      · rw [hother hji, hother hli] at heq
        exact h.distinct j l (hlive hji hj) (hlive hli hl) heq
  · have hfds : s'.fds = slotFd b + s.otherFds i := by
      unfold Sockets.fds
      rw [hbrcm]
      exact sum_update slotFd s.brcmSocket i b
    rw [hfds]
    exact hheld

theorem Shares.flag (h : Shares P M s) {i : BrcmSlot} (hlive : s.Live i) (cap : Nat) :
    Shares P M (s.upd i fun b => { b with flag := b.flag ||| cap }) := by
  refine h.change rfl le_rfl hlive.1 (h.count i) (fun _ _ => rfl) (fun p hp => ?_)
    (fun _ j hj hl heq => ?_) ?_
  · by_cases heq : p.1 = i
    · exact .inl ⟨heq, by rw [← heq]; exact h.named p hp⟩
    · exact .inr ⟨heq, hp⟩
  · exact hj (h.distinct j i hl hlive heq)
  · have hheld := h.held
    rw [fds_split s i] at hheld
    exact hheld

theorem slotFd_zero {b : BrcmSocket} (h : b.inuseCount = 0) : slotFd b = 0 := if_neg (by omega)

theorem slotFd_pos {b : BrcmSocket} (h : 0 < b.inuseCount) : slotFd b = {b.drvSocket} := if_pos h

theorem Shares.no_refs (h : Shares P M s) {i : BrcmSlot} (hfree : (s.brcmSocket i).inuseCount = 0)
    {p : BrcmSlot × Bytes} (hp : p ∈ P) : p.1 ≠ i := by
  rintro rfl
  have hpos := (h.live hp).2
  omega

theorem Shares.unusedSlot {s' : Sockets} (h : Shares P M s) {i : BrcmSlot}
    (hfree : (s.brcmSocket i).inuseCount = 0) {b : BrcmSocket} (hb : b.inuseCount = 0)
    (hbrcm : s'.brcmSocket = Function.update s.brcmSocket i b)
    (hgrows : s.brcmSocketCount ≤ s'.brcmSocketCount) (hi : i.val < s'.brcmSocketCount)
    (hlog : s'.log = s.log) :
    Shares P M s' := by
  have hcount := h.count i
  refine h.change hbrcm hgrows hi (by omega) (fun _ _ => rfl)
    (fun p hp => .inr ⟨h.no_refs hfree hp, hp⟩)
    (fun hpos => by omega) ?_
  have hheld := h.held
  rw [fds_split s i, slotFd_zero hfree] at hheld
  rw [slotFd_zero hb, hlog]
  exact hheld

/-- **A socket is opened** in a slot that is not in use. -/
theorem Shares.eapdBrcmOpen (h : Shares P M s) {i : BrcmSlot}
    (hfree : (s.brcmSocket i).inuseCount = 0) (hi : i.val < s.brcmSocketCount)
    (hnew : ∀ j, s.Live j → (s.brcmSocket j).ifname ≠ (s.brcmSocket i).ifname) :
    (∀ j, (eapdBrcmOpen k i s).1 = some j →
      Shares ((j, (s.brcmSocket i).ifname) ::ₘ P) M (eapdBrcmOpen k i s).2) ∧
      ((eapdBrcmOpen k i s).1 = none → Shares P M (eapdBrcmOpen k i s).2) := by
  have hopen := h.openSocket (k := k)
  have hlog := (@openSocket_spec s k).2.2.2
  have hsame : (Eapd.openSocket k s).2.brcmSocket = s.brcmSocket := openSocket_brcmSocket
  have hcount : (Eapd.openSocket k s).2.brcmSocketCount = s.brcmSocketCount := openSocket_count
  unfold Eapd.eapdBrcmOpen
  generalize Eapd.openSocket k s = r at hopen hlog hsame hcount ⊢
  obtain ⟨fd, s'⟩ := r
  dsimp only at hopen hlog hsame hcount ⊢
  cases fd with
  | none =>
      refine ⟨fun j hno => (by cases hno), fun _ => ?_⟩
      rw [fdOf, Option.getD_none, openFd_neg_one, zero_add] at hopen
      refine hopen.unusedSlot (i := i) (by rw [hsame]; exact hfree) ?_ rfl le_rfl
        (by rw [upd_count, hcount]; exact hi) rfl
      rw [hsame]
      exact hfree
  | some fd =>
      have hfd : 0 ≤ fd := hlog.nonneg
      refine ⟨fun j hj => ?_, fun hno => by cases hno⟩
      cases hj
      rw [fdOf, Option.getD_some, openFd_natCast hfd] at hopen
      refine hopen.change rfl le_rfl (by rw [upd_count, hcount]; exact hi) ?_ (fun j hj => ?_)
        (fun p hp => ?_)
        (fun _ j hj hl => ?_) ?_
      · have hzero := h.count i
        simp only [Multiset.map_cons, Multiset.count_cons_self]
        omega
      · simp [Multiset.count_cons_of_ne hj]
      · rcases Multiset.mem_cons.mp hp with rfl | hp
        · exact .inl ⟨rfl, by rw [hsame]⟩
        · exact .inr ⟨h.no_refs hfree hp, hp⟩
      · unfold Sockets.Live at hl
        rw [hsame, hcount] at hl
        rw [hsame]
        exact hnew j hl
      · have hheld := hopen.held
        rw [fds_split s' i, slotFd_zero (by rw [hsame]; exact hfree), zero_add] at hheld
        rw [slotFd_pos (Nat.one_pos), add_comm {fd} (s'.otherFds i), add_assoc]
        exact hheld

/-- **A socket is shared or opened** under this name. -/
theorem Shares.eapdAddBrcm (h : Shares P M s) (name : Bytes) :
    (∀ i, (eapdAddBrcm k name s).1 = some i → Shares ((i, name) ::ₘ P) M (eapdAddBrcm k name s).2) ∧
      ((eapdAddBrcm k name s).1 = none → Shares P M (eapdAddBrcm k name s).2) := by
  unfold Eapd.eapdAddBrcm
  cases hfind : eapdFindBrcm name s with
  | some i =>
      obtain ⟨hlive, hname⟩ := eapdFindBrcm_some hfind
      refine ⟨fun i' hi' => ?_, fun hno => by cases hno⟩
      cases hi'
      refine h.change rfl le_rfl hlive.1 ?_ (fun j hj => ?_) (fun p hp => ?_)
        (fun _ j hj hl heq => ?_) ?_
      · simp [h.count]
      · simp [Multiset.count_cons_of_ne hj]
      · rcases Multiset.mem_cons.mp hp with rfl | hp
        · exact .inl ⟨rfl, hname⟩
        · by_cases heq : p.1 = i
          · exact .inl ⟨heq, by rw [← heq]; exact h.named p hp⟩
          · exact .inr ⟨heq, hp⟩
      · exact hj (h.distinct j i hl hlive heq)
      · have hheld := h.held
        rw [fds_split s i, slotFd_pos hlive.2] at hheld
        rw [slotFd_pos (Nat.succ_pos _)]
        exact hheld
  | none =>
      cases hfree : freeBrcm s with
      | none => exact ⟨fun i hno => (by cases hno), fun _ => h⟩
      | some p =>
          obtain ⟨i, s'⟩ := p
          obtain ⟨hdead, hi, hgrows, hs', -⟩ := freeBrcm_some hfree
          rw [h.live_iff, not_lt, Nat.le_zero] at hdead
          have hsame : s'.brcmSocket = s.brcmSocket := by rw [hs']
          have hlog : s'.log = s.log := by rw [hs']
          have hfilled :
              Shares P M (s'.upd i fun _ => { BrcmSocket.zero with ifname := name }) := by
            apply h.unusedSlot hdead (b := { BrcmSocket.zero with ifname := name }) rfl
            · rw [← hsame]
              rfl
            · exact hgrows
            · exact hi
            · exact hlog
          have hopen := hfilled.eapdBrcmOpen (k := k) (i := i) (by rw [upd_self]; rfl) hi ?_
          · rw [upd_self] at hopen
            exact hopen
          · intro j hj
            by_cases hji : j = i
            · subst hji
              have hpos := hj.2
              rw [upd_self] at hpos
              exact absurd hpos (lt_irrefl 0)
            · rw [upd_self, upd_of_ne hji, hsame]
              apply eapdFindBrcm_none hfind
              rw [h.live_iff, ← hsame, ← upd_of_ne hji]
              exact hj.2

/-- **A reference is given up.** -/
theorem Shares.eapdDelBrcm {i : BrcmSlot} {name : Bytes} (h : Shares ((i, name) ::ₘ P) M s) :
    Shares P M (eapdDelBrcm i s) := by
  have hlive : s.Live i := h.live (Multiset.mem_cons_self _ _)
  have hname : (s.brcmSocket i).ifname = name := h.named _ (Multiset.mem_cons_self _ _)
  have hcount := h.count i
  rw [Multiset.map_cons, Multiset.count_cons_self] at hcount
  have hothers (j : BrcmSlot) (hj : j ≠ i) :
      (P.map Prod.fst).count j = (((i, name) ::ₘ P).map Prod.fst).count j := by
    simp [Multiset.count_cons_of_ne hj]
  have hnamed (p : BrcmSlot × Bytes) (hp : p ∈ P) :
      p.1 = i ∧ (s.brcmSocket i).ifname = p.2 ∨ p.1 ≠ i ∧ p ∈ (i, name) ::ₘ P := by
    have hp' := Multiset.mem_cons_of_mem hp (b := (i, name))
    by_cases heq : p.1 = i
    · exact .inl ⟨heq, by rw [← heq]; exact h.named p hp'⟩
    · exact .inr ⟨heq, hp'⟩
  have hdistinct (j : BrcmSlot) (hj : j ≠ i) (hl : s.Live j) :
      (s.brcmSocket j).ifname ≠ (s.brcmSocket i).ifname :=
        fun heq => hj (h.distinct j i hl hlive heq)
  have hheld := h.held
  rw [fds_split s i, slotFd_pos hlive.2] at hheld
  unfold Eapd.eapdDelBrcm
  cases hfind : eapdFindBrcm (s.brcmSocket i).ifname s with
  | none => exact absurd rfl (eapdFindBrcm_none hfind hlive)
  | some j =>
      obtain ⟨hl, heq⟩ := eapdFindBrcm_some hfind
      obtain rfl : j = i := h.distinct j i hl hlive heq
      dsimp only
      rw [upd_self]
      split_ifs with hlast
      · refine h.change (b := { s.brcmSocket j with drvSocket := -1, inuseCount := 0 }) ?_ le_rfl
          hlive.1 ?_ hothers hnamed
          (fun hpos => absurd hpos (lt_irrefl 0)) ?_
        · simp [Sockets.upd, hlast]
        · dsimp only at hlast ⊢
          omega
        · rw [slotFd_zero rfl, zero_add]
          rw [add_assoc, Multiset.singleton_add] at hheld
          exact hheld.release
      · refine h.change rfl le_rfl hlive.1 ?_ hothers hnamed (fun _ => hdistinct) ?_
        · dsimp only
          omega
        · rw [slotFd_pos (Nat.pos_of_ne_zero hlast)]
          exact hheld

end

/-! ## Control blocks -/

/-- The reference of a control block. -/
def Cb.ref (cb : Cb) : Multiset (BrcmSlot × Bytes) :=
  match cb.brcmSocket with
  | none => 0
  | some i => {(i, cb.ifname)}

/-- The references of the blocks of a list. -/
def refs (cbs : List Cb) : Multiset (BrcmSlot × Bytes) := (cbs.map Cb.ref).sum

/-- The sockets for pre-authentication of the blocks of a list. -/
def preauths (cbs : List Cb) : Multiset Int := (cbs.map fun cb => openFd cb.preauth).sum

@[simp] theorem refs_nil : refs [] = 0 := rfl
@[simp] theorem refs_cons (cb : Cb) (cbs : List Cb) : refs (cb :: cbs) = cb.ref + refs cbs :=
  List.sum_cons
@[simp] theorem preauths_nil : preauths [] = 0 := rfl
@[simp] theorem preauths_cons (cb : Cb) (cbs : List Cb) :
    preauths (cb :: cbs) = openFd cb.preauth + preauths cbs :=
  List.sum_cons

/-- The block has not been opened. -/
def Cb.Unopened (cb : Cb) : Prop := cb.brcmSocket = none

theorem Cb.Unopened.ref {cb : Cb} (h : cb.Unopened) : cb.ref = 0 := by
  unfold Cb.ref
  rw [h]

section

variable {k : Nat → Answer} {P : Multiset (BrcmSlot × Bytes)} {M : Multiset Int} {s : Sockets}
  {cap : Nat} {cb : Cb}
  {cbs : List Cb}

variable (k cap cb) in
/-- What `openBlock` adds: the reference, and the socket for pre-authentication. -/
theorem Shares.openBlock (h : Shares P M s) (preauth : Bool) :
    ((openBlock k cap preauth cb s).1 = true →
      Shares ((openBlock k cap preauth cb s).2.1.ref + P)
        ((if preauth then openFd (openBlock k cap preauth cb s).2.1.preauth else 0) + M)
        (openBlock k cap preauth cb s).2.2) ∧
    ((openBlock k cap preauth cb s).1 = false →
      (openBlock k cap preauth cb s).2.1 = { cb with brcmSocket := none } ∧
      Shares P M (openBlock k cap preauth cb s).2.2) := by
  have hadd := h.eapdAddBrcm (k := k) cb.ifname
  unfold Eapd.openBlock
  generalize Eapd.eapdAddBrcm k cb.ifname s = r at hadd ⊢
  obtain ⟨i, s'⟩ := r
  cases i with
  | none => exact ⟨fun hno => (by cases hno), fun _ => ⟨rfl, hadd.2 rfl⟩⟩
  | some i =>
      have hshares := hadd.1 i rfl
      have hflag := hshares.flag (hshares.live (Multiset.mem_cons_self _ _)) cap
      rw [← Multiset.singleton_add] at hflag
      refine ⟨fun _ => ?_, fun hno => (by cases preauth <;> cases hno)⟩
      cases preauth with
      | false =>
          rw [← zero_add M] at hflag
          exact hflag
      | true => exact hflag.openSocket (k := k)

theorem Shares.closeBlock {preauth : Bool}
    (h : Shares (cb.ref + P) ((if preauth then openFd cb.preauth else 0) + M) s) :
    Shares P M (closeBlock preauth cb s) := by
  have hdel : Shares P ((if preauth then openFd cb.preauth else 0) + M)
      (cb.brcmSocket.elim s fun i => Eapd.eapdDelBrcm i s) := by
    unfold Cb.ref at h
    cases href : cb.brcmSocket with
    | none =>
        rw [href] at h
        rw [← zero_add P]
        exact h
    | some i =>
        rw [href] at h
        rw [Multiset.singleton_add] at h
        exact Shares.eapdDelBrcm h
  unfold Eapd.closeBlock
  cases preauth with
  | false =>
      rw [← zero_add M]
      exact hdel
  | true => exact hdel.closeFd

theorem refs_unopened (hcbs : ∀ cb ∈ cbs, cb.Unopened) : refs cbs = 0 := by
  induction cbs with
  | nil => rfl
  | cons cb cbs ih =>
      rw [refs_cons, (hcbs cb List.mem_cons_self).ref,
        ih fun cb hcb => hcbs cb (List.mem_cons_of_mem _ hcb), add_zero]

variable (k cap) in
/-- **The blocks of an application are opened**, all of them or, if there are no sockets for
pre-authentication, some of them. -/
theorem Shares.openBlocks (h : Shares P M s) {preauth : Bool} (hcbs : ∀ cb ∈ cbs, cb.Unopened)
    (hall : preauth = false ∨ (openBlocks k cap preauth cbs s).1 = true) :
    Shares (refs (openBlocks k cap preauth cbs s).2.1 + P)
      ((if preauth then preauths (openBlocks k cap preauth cbs s).2.1 else 0) + M)
      (openBlocks k cap preauth cbs s).2.2 := by
  induction cbs generalizing P M s with
  | nil =>
      unfold Eapd.openBlocks
      simpa using h
  | cons cb cbs ih =>
      have hrest : ∀ cb ∈ cbs, cb.Unopened := fun cb hcb => hcbs cb (List.mem_cons_of_mem _ hcb)
      have hopen := h.openBlock k cap cb preauth
      unfold Eapd.openBlocks at hall ⊢
      generalize Eapd.openBlock k cap preauth cb s = r at hopen hall ⊢
      obtain ⟨ok, cb', s'⟩ := r
      cases ok with
      | false =>
          obtain ⟨hcb', hshares⟩ := hopen.2 rfl
          rcases hall with rfl | hno
          · have hnone : cb'.Unopened := by
              dsimp only at hcb'
              rw [hcb']
              rfl
            dsimp only
            rw [refs_cons, hnone.ref, refs_unopened hrest, zero_add, zero_add]
            simpa using hshares
          · cases hno
      | true =>
          have hshares := ih (hopen.1 rfl) hrest hall
          dsimp only at hshares ⊢
          rw [refs_cons, preauths_cons]
          cases preauth with
          | false => simpa [add_assoc, add_left_comm] using hshares
          | true => simpa [add_assoc, add_left_comm] using hshares

theorem Shares.closeBlocks {preauth : Bool}
    (h : Shares (refs cbs + P) ((if preauth then preauths cbs else 0) + M) s) :
    Shares P M (cbs.foldl (fun s cb => Eapd.closeBlock preauth cb s) s) := by
  induction cbs generalizing s with
  | nil => simpa using h
  | cons cb cbs ih =>
      apply ih
      apply Shares.closeBlock
      cases preauth with
      | false => simpa [add_assoc] using h
      | true => simpa [add_assoc] using h

end

/-! ## The workspace -/

theorem app_mem (a : App) : a ∈ ({.wps, .ses, .nas} : Finset App) := by
  cases a <;> decide

instance : Fintype App := ⟨{.wps, .ses, .nas}, app_mem⟩

/-- The descriptors that stand in the workspace itself. -/
def Wksp.ownFds (w : Wksp) : Multiset Int := ∑ a, openFd (w.app a).appSocket + openFd w.difSocket

/-- The references are those of the blocks; `X` are the descriptors that are not in the workspace
itself. -/
def OwnedWith (X : Multiset Int) (w : Wksp) : Prop :=
  Shares (∑ a, refs (w.app a).cb) (X + w.ownFds) w.sockets

/-- **Everything is owned once.** -/
def Owned (w : Wksp) : Prop := OwnedWith (preauths (w.app .nas).cb) w

/-- Before `eapd` starts. -/
structure Configured (w : Wksp) : Prop where
  sockets : w.sockets = Wksp.alloc.sockets
  closed : ∀ a, (w.app a).appSocket = -1
  difSocket : w.difSocket = -1
  unopened : ∀ a, ∀ cb ∈ (w.app a).cb, cb.Unopened

section

variable {k : Nat → Answer} {X : Multiset Int} {w : Wksp} {a : App}

/-- The references and the descriptors of the other applications. -/
def otherRefs (w : Wksp) (a : App) : Multiset (BrcmSlot × Bytes) :=
  ∑ b ∈ Finset.univ.erase a, refs (w.app b).cb
def otherFds (w : Wksp) (a : App) : Multiset Int :=
  ∑ b ∈ Finset.univ.erase a, openFd (w.app b).appSocket + openFd w.difSocket

theorem ownedWith_iff (a : App) : OwnedWith X w ↔
    Shares (refs (w.app a).cb + otherRefs w a) (openFd (w.app a).appSocket + (X + otherFds w a))
      w.sockets := by
  unfold OwnedWith Wksp.ownFds otherRefs otherFds
  rw [sum_split (fun st : AppState => refs st.cb) w.app a,
    sum_split (fun st : AppState => openFd st.appSocket) w.app a]
  rw [add_assoc (openFd (w.app a).appSocket), add_left_comm X]

theorem ownedWith_updApp (f : AppState → AppState) (s : Sockets) :
    OwnedWith X { w.updApp a f with sockets := s } ↔
    Shares (refs (f (w.app a)).cb + otherRefs w a)
      (openFd (f (w.app a)).appSocket + (X + otherFds w a)) s := by
  unfold OwnedWith Wksp.ownFds otherRefs otherFds Wksp.updApp
  dsimp only
  rw [sum_update (fun st : AppState => refs st.cb) w.app a,
    sum_update (fun st : AppState => openFd st.appSocket) w.app a]
  rw [add_assoc (openFd (f (w.app a)).appSocket), add_left_comm X]

theorem Configured.ownedWith (h : Configured w) : OwnedWith 0 w := by
  have hrefs : ∑ a, refs (w.app a).cb = 0 :=
    Finset.sum_eq_zero fun a _ => refs_unopened (h.unopened a)
  have hfds : w.ownFds = 0 := by
    unfold Wksp.ownFds
    rw [h.difSocket, openFd_neg_one, add_zero]
    apply Finset.sum_eq_zero
    intro a _
    rw [h.closed a, openFd_neg_one]
  unfold OwnedWith
  rw [hrefs, hfds, h.sockets]
  refine ⟨fun i => rfl, fun i _ => rfl, fun p hp => absurd hp (Multiset.notMem_zero p),
    fun i j hi => ?_, ?_⟩
  · exact absurd hi.2 (lt_irrefl 0)
  · have hnone : Sockets.fds Wksp.alloc.sockets = 0 := Finset.sum_eq_zero fun i _ => rfl
    rw [hnone, add_zero, add_zero]
    exact Held.nil

/-- The blocks of the application have been opened, all those of `nas` and those of others as far as
it went. -/
def BlocksOpen (k : Nat → Answer) (a : App) (w : Wksp) : Prop :=
  a ≠ .nas ∨ (openBlocks k a.cap (decide (a = .nas)) (w.app a).cb w.sockets).1 = true

theorem OwnedWith.openAppSocket (h : OwnedWith X w) (hclosed : (w.app a).appSocket = -1) :
    OwnedWith X (openAppSocket k a w).2 := by
  rw [ownedWith_iff a, hclosed, openFd_neg_one, zero_add] at h
  unfold Eapd.openAppSocket
  rw [ownedWith_updApp]
  exact h.openSocket

/-- Another application, and the blocks, when the application's socket is opened. -/
theorem openAppSocket_app : ((openAppSocket k a w).2.app a).cb = (w.app a).cb ∧
    (openAppSocket k a w).2.difSocket = w.difSocket ∧ ∀ b, b ≠ a →
    (openAppSocket k a w).2.app b = w.app b := by
  unfold openAppSocket
  dsimp only
  rw [updApp_self]
  exact ⟨rfl, rfl, fun b hb => updApp_of_ne hb _⟩

/-- **`nas_app_init` and its siblings.** -/
theorem OwnedWith.appInit (h : OwnedWith X w) (hclosed : (w.app a).appSocket = -1)
    (hcbs : ∀ cb ∈ (w.app a).cb, cb.Unopened) (hall : (w.app a).cb = [] ∨ BlocksOpen k a w) :
    OwnedWith ((if a = .nas then preauths ((appInit k a w).2.app a).cb else 0) +
      X) (appInit k a w).2 ∧
      (appInit k a w).2.difSocket = w.difSocket ∧ ∀ b, b ≠ a →
      (appInit k a w).2.app b = w.app b := by
  have hsame : (w.updApp a fun st => { st with appSocket := -1 }) = w := by
    unfold Wksp.updApp
    rw [← hclosed, Function.update_eq_self]
  unfold Eapd.appInit
  rw [hsame]
  dsimp only
  by_cases hempty : (w.app a).cb = []
  · rw [hempty, List.isEmpty_nil, if_pos rfl]
    dsimp only
    rw [hempty]
    simpa using h
  · have hne : (w.app a).cb.isEmpty = false := by simpa using hempty
    rw [hne, if_neg (Bool.false_ne_true)]
    have hopen : decide (a = .nas) = false ∨
        (openBlocks k a.cap (decide (a = .nas)) (w.app a).cb w.sockets).1 = true := by
      rcases hall with hno | hna | hok
      · exact absurd hno hempty
      · exact .inl (decide_eq_false hna)
      · exact .inr hok
    rw [ownedWith_iff a, refs_unopened hcbs, hclosed, openFd_neg_one, zero_add, zero_add] at h
    have hblocks := h.openBlocks k a.cap hcbs hopen
    simp only [decide_eq_true_eq] at hblocks
    generalize Eapd.openBlocks k a.cap (decide (a = .nas)) (w.app a).cb w.sockets = r at hblocks ⊢
    obtain ⟨ok, cbs, s⟩ := r
    dsimp only at hblocks ⊢
    have howned : OwnedWith ((if a = .nas then preauths cbs else 0) + X)
        { w.updApp a (fun st => { st with cb := cbs }) with sockets := s } := by
      rw [ownedWith_updApp]
      dsimp only
      rw [hclosed, openFd_neg_one, zero_add, add_assoc]
      exact hblocks
    have hothers (b : App) (hb : b ≠ a) :
        (w.updApp a (fun st => { st with cb := cbs })).app b = w.app b :=
      updApp_of_ne hb _
    cases ok with
    | false =>
        rw [if_neg Bool.false_ne_true]
        dsimp only
        rw [updApp_self]
        exact ⟨howned, rfl, hothers⟩
    | true =>
        rw [if_pos rfl]
        obtain ⟨hcb, hdif, happ⟩ :=
          @openAppSocket_app k { w.updApp a (fun st => { st with cb := cbs }) with sockets := s } a
        rw [hcb, hdif]
        dsimp only
        rw [updApp_self]
        refine ⟨howned.openAppSocket ?_, rfl, fun b hb => (happ b hb).trans (hothers b hb)⟩
        dsimp only
        rw [updApp_self]
        exact hclosed

/-- **`nas_app_deinit` and its siblings.** -/
theorem OwnedWith.appDeinit
    (h : OwnedWith ((if a = .nas then preauths (w.app a).cb else 0) + X) w) :
    OwnedWith X (appDeinit a w) ∧ ∀ b, b ≠ a → (appDeinit a w).app b = w.app b := by
  unfold Eapd.appDeinit
  dsimp only
  refine ⟨?_, fun b hb => updApp_of_ne hb _⟩
  rw [ownedWith_iff a, add_left_comm, add_assoc] at h
  rw [ownedWith_updApp]
  have hclosed : Shares (otherRefs w a) (openFd (w.app a).appSocket + (X + otherFds w a))
      ((w.app a).cb.foldl (fun s cb => Eapd.closeBlock (decide (a = .nas)) cb s) w.sockets) := by
    apply Shares.closeBlocks
    simp only [decide_eq_true_eq]
    rw [add_left_comm (openFd (w.app a).appSocket)]
    exact h
  have hfd := hclosed.closeFd
  simpa using hfd

/-- **The end.** -/
theorem Owned.eapdWkspCleanup (h : Owned w) : Held 0 (eapdWkspCleanup w).sockets.log := by
  unfold Owned at h
  have hwps :=
    OwnedWith.appDeinit (a := .wps) (X := preauths (w.app .nas).cb) (w := w) (by simpa using h)
  have hses := OwnedWith.appDeinit (a := .ses) (by rw [if_neg (by decide), zero_add]; exact hwps.1)
  have hnas := OwnedWith.appDeinit (a := .nas) (X := 0) (w := sesAppDeinit (wpsAppDeinit w)) (by
    have heq : ((sesAppDeinit (wpsAppDeinit w)).app .nas).cb = (w.app .nas).cb := by
      unfold sesAppDeinit wpsAppDeinit
      rw [hses.2 .nas (by decide), hwps.2 .nas (by decide)]
    rw [if_pos rfl, heq, add_zero]
    exact hses.1)
  unfold Eapd.eapdWkspCleanup
  have howned := hnas.1
  unfold OwnedWith Wksp.ownFds at howned
  rw [zero_add, add_comm (∑ a, _) (openFd _)] at howned
  exact howned.closeFd.held.mono (Multiset.zero_le _)

theorem OwnedWith.openDifSocket (h : OwnedWith X w) (hclosed : w.difSocket = -1) :
    OwnedWith X (openDifSocket k w).2 := by
  unfold OwnedWith Wksp.ownFds at h
  rw [hclosed, openFd_neg_one, add_zero] at h
  have hopen := h.openSocket (k := k)
  rw [add_comm (openFd _) (X + _), add_assoc] at hopen
  exact hopen

/-- Startup gets through the control blocks of `nas`. -/
def GetsThrough (k : Nat → Answer) (w : Wksp) : Prop :=
  (w.app .nas).cb = [] ∨
    (wpsAppInit k w).1 = true ∧
      (openBlocks k App.nas.cap true (w.app .nas).cb (wpsAppInit k w).2.sockets).1 = true

/-- **Startup.** -/
theorem Configured.eapdWkspInit (h : Configured w) (hthrough : GetsThrough k w) :
    Owned (eapdWkspInit k w).2 := by
  have hwps :=
    h.ownedWith.appInit (k := k) (a := .wps) (h.closed .wps) (h.unopened .wps)
      (.inr (.inl (by decide)))
  rw [if_neg (by decide), zero_add] at hwps
  unfold Eapd.eapdWkspInit
  unfold GetsThrough at hthrough
  change OwnedWith 0 (wpsAppInit k w).2 ∧ (wpsAppInit k w).2.difSocket = w.difSocket ∧
    ∀ b, b ≠ .wps → (wpsAppInit k w).2.app b = w.app b at hwps
  generalize wpsAppInit k w = r at hwps hthrough ⊢
  obtain ⟨ok, w₁⟩ := r
  obtain ⟨howned, hdif, hothers⟩ := hwps
  dsimp only at howned hdif hothers hthrough
  have hnas := hothers .nas (by decide)
  cases ok with
  | false =>
      have hempty : (w.app .nas).cb = [] := hthrough.resolve_right fun hno => (by cases hno.1)
      unfold Owned
      dsimp only
      rw [hnas, hempty]
      exact howned
  | true =>
      have hblocks : (w₁.app .nas).cb = [] ∨ BlocksOpen k .nas w₁ := by
        unfold BlocksOpen
        rw [hnas]
        exact hthrough.imp id fun hyes => .inr hyes.2
      have hnasInit := howned.appInit (k := k) (a := .nas) (by rw [hnas]; exact h.closed .nas)
        (by rw [hnas]; exact h.unopened .nas) hblocks
      rw [if_pos rfl, add_zero] at hnasInit
      dsimp only
      change OwnedWith (preauths ((nasAppInit k w₁).2.app .nas).cb) (nasAppInit k w₁).2 ∧
        (nasAppInit k w₁).2.difSocket = w₁.difSocket ∧ ∀ b, b ≠ .nas →
          (nasAppInit k w₁).2.app b = w₁.app b at hnasInit
      generalize nasAppInit k w₁ = r at hnasInit ⊢
      obtain ⟨ok, w₂⟩ := r
      obtain ⟨howned₂, hdif₂, hothers₂⟩ := hnasInit
      dsimp only at howned₂ hdif₂ hothers₂
      cases ok with
      | false => exact howned₂
      | true =>
          have hses : w₂.app .ses = w.app .ses :=
            (hothers₂ .ses (by decide)).trans (hothers .ses (by decide))
          have hsesInit := howned₂.appInit (k := k) (a := .ses) (by rw [hses]; exact h.closed .ses)
            (by rw [hses]; exact h.unopened .ses) (.inr (.inl (by decide)))
          rw [if_neg (by decide), zero_add] at hsesInit
          dsimp only
          change OwnedWith (preauths (w₂.app .nas).cb) (sesAppInit k w₂).2 ∧
            (sesAppInit k w₂).2.difSocket = w₂.difSocket ∧ ∀ b, b ≠ .ses →
              (sesAppInit k w₂).2.app b = w₂.app b at hsesInit
          generalize sesAppInit k w₂ = r at hsesInit ⊢
          obtain ⟨ok, w₃⟩ := r
          obtain ⟨howned₃, hdif₃, hothers₃⟩ := hsesInit
          dsimp only at howned₃ hdif₃ hothers₃
          rw [← hothers₃ .nas (by decide)] at howned₃
          cases ok with
          | false => exact howned₃
          | true =>
              apply howned₃.openDifSocket
              rw [hdif₃, hdif₂, hdif]
              exact h.difSocket

theorem Configured.eapdAddInterface (h : Configured w) (host : Host) (ifname : Bytes) (mode : App) :
    Configured (eapdAddInterface host ifname mode w).2 := by
  have hupd {f : AppState → AppState}
      (hsocket : (f (w.app mode)).appSocket = (w.app mode).appSocket)
      (hcbs : ∀ cb ∈ (f (w.app mode)).cb, cb.Unopened) : Configured (w.updApp mode f) := by
    refine ⟨h.sockets, fun a => ?_, h.difSocket, fun a => ?_⟩
    · by_cases ha : a = mode
      · subst ha
        rw [updApp_self, hsocket]
        exact h.closed a
      · rw [updApp_of_ne ha]
        exact h.closed a
    · by_cases ha : a = mode
      · subst ha
        rw [updApp_self]
        exact hcbs
      · rw [updApp_of_ne ha]
        exact h.unopened a
  unfold Eapd.eapdAddInterface
  dsimp only
  split
  · exact h
  · split
    · exact h
    · split
      · dsimp only
        refine hupd ?_ ?_
        · rfl
        · exact h.unopened mode
      · split
        · dsimp only
          refine hupd ?_ fun cb hcb => ?_
          · rfl
          · rcases List.mem_cons.mp hcb with rfl | hcb
            · rfl
            · exact h.unopened mode cb hcb
        · exact h

/-! ## Interfaces that come and go -/

variable {host : Host} {ifname : Bytes}

/-- An interface that is added is the first one of its bridge, and gets a socket and one for
pre-authentication. -/
def AddsOwned (k : Nat → Answer) (h : Host) (ifname : Bytes) (w : Wksp) : Prop :=
  ∀ names ∈ addedNames h ifname w, ¬HasBlock names.2 w ∧ h.bcmwpa2 = true ∧
    ¬NoBrcm k names.2 w.sockets

/-- **An interface is added.** -/
theorem Owned.eapdAddDif (h : Owned w) (hadds : AddsOwned k host ifname w) :
    Owned (eapdAddDif k host ifname w).2 := by
  cases hnames : addedNames host ifname w with
  | none =>
      rw [eapdAddDif_none hnames]
      exact h
  | some names =>
      obtain ⟨nvName, lanifname⟩ := names
      obtain ⟨hnew, hwpa2, hbrcm⟩ := hadds _ hnames
      have hopen := ((ownedWith_iff .nas).mp h).openBlock k App.nas.cap ⟨lanifname, none, 0⟩ true
      have hok : ¬(openBlock k App.nas.cap true ⟨lanifname, none, 0⟩ w.sockets).1 = false :=
        mt openBlock_false.mp hbrcm
      dsimp only at hnew hbrcm
      rw [eapdAddDif_some hnames, added_new hnew]
      unfold opened
      rw [updApp_self]
      dsimp only
      unfold openNamed nasOpenDifSockets
      rw [if_pos rfl, hwpa2, updApp_sockets]
      generalize Eapd.openBlock k App.nas.cap true ⟨lanifname, none, 0⟩ w.sockets = r at hopen hok ⊢
      obtain ⟨ok, cb, s⟩ := r
      have hshares := hopen.1 (eq_true_of_ne_false hok)
      dsimp only at hshares ⊢
      rw [updApp_updApp]
      unfold Owned
      rw [ownedWith_updApp]
      dsimp only
      rw [updApp_self, refs_cons, preauths_cons, add_assoc, add_assoc]
      rw [if_pos rfl, add_left_comm (openFd cb.preauth)] at hshares
      exact hshares

theorem sum_eraseP {β : Type} [AddCommMonoid β] (f : Cb → β) {p : Cb → Bool}
    {cbs : List Cb} {cb : Cb} (hfind : cbs.find? p = some cb) :
    (cbs.map f).sum = f cb + ((cbs.eraseP p).map f).sum := by
  induction cbs with
  | nil => cases hfind
  | cons x cbs ih =>
      by_cases hx : p x = true
      · rw [List.find?_cons_of_pos hx] at hfind
        cases hfind
        rw [List.eraseP_cons_of_pos hx, List.map_cons, List.sum_cons]
      · rw [List.find?_cons_of_neg hx] at hfind
        rw [List.eraseP_cons_of_neg hx, List.map_cons, List.sum_cons, List.map_cons,
          List.sum_cons, ih hfind, add_left_comm]

theorem Owned.names (h : Owned w) (a : App) (f : List Bytes → List Bytes) :
    Owned (w.updApp a fun st => { st with ifnames := f st.ifnames }) := by
  have hcb (b : App) : ((w.updApp a fun st => { st with ifnames := f st.ifnames }).app b).cb =
      (w.app b).cb ∧
      ((w.updApp a fun st => { st with ifnames := f st.ifnames }).app b).appSocket =
          (w.app b).appSocket := by
    by_cases hb : b = a
    · subst hb
      rw [updApp_self]
      exact ⟨rfl, rfl⟩
    · rw [updApp_of_ne hb]
      exact ⟨rfl, rfl⟩
  unfold Owned OwnedWith Wksp.ownFds at h ⊢
  simp only [hcb, updApp_difSocket, updApp_sockets]
  exact h

/-- **An interface is deleted.** -/
theorem Owned.eapdDeleteDif (h : Owned w) : Owned (eapdDeleteDif host ifname w) := by
  unfold Eapd.eapdDeleteDif
  cases hfind : (w.app .nas).cb.find? fun cb => cb.ifname == ifname with
  | none => exact h
  | some cb =>
      have hrefs : refs (w.app .nas).cb = cb.ref + refs _ := sum_eraseP Cb.ref hfind
      have hpreauths : preauths (w.app .nas).cb = openFd cb.preauth + preauths _ :=
        sum_eraseP (fun cb => openFd cb.preauth) hfind
      have hopen := (ownedWith_iff .nas).mp h
      rw [hrefs, hpreauths, add_assoc, add_assoc, add_left_comm (openFd (w.app .nas).appSocket)]
        at hopen
      have hclosed :
          Shares (refs ((w.app .nas).cb.eraseP fun cb => cb.ifname == ifname) + otherRefs w .nas)
          (openFd (w.app .nas).appSocket +
            (preauths ((w.app .nas).cb.eraseP fun cb => cb.ifname == ifname) + otherFds w .nas))
          (nasCloseDifSockets host cb w.sockets) := by
        apply Shares.closeBlock
        cases host.bcmwpa2 with
        | true => exact hopen
        | false => exact hopen.mono (add_le_add_left (Multiset.zero_le _) _)
      dsimp only
      cases host.nvifnameToOsifname ifname with
      | none =>
          unfold Owned
          rw [ownedWith_updApp]
          dsimp only
          rw [updApp_self]
          exact hclosed
      | some osName =>
          dsimp only
          refine Owned.names ?_ .nas fun ifnames =>
            host.lists.removeFromList osName ifnames ifnamesSize
          unfold Owned
          rw [ownedWith_updApp]
          dsimp only
          rw [updApp_self]
          exact hclosed

/-! ## Rounds -/

theorem mem_openFd {fd : Int} (h : 0 ≤ fd) : fd ∈ openFd fd := by
  rw [openFd_natCast h]
  exact Multiset.mem_singleton_self fd

theorem selected_mem {fd : Int} (h : fd ∈ selected w) :
    fd ∈ w.sockets.fds + (preauths (w.app .nas).cb + w.ownFds) := by
  have hfds (i : BrcmSlot) (hpos : 0 < (w.sockets.brcmSocket i).inuseCount) :
      (w.sockets.brcmSocket i).drvSocket ∈ w.sockets.fds := by
    rw [fds_split w.sockets i, slotFd_pos hpos]
    exact Multiset.mem_add.mpr (.inl (Multiset.mem_singleton_self _))
  have happ (a : App) (hfd : 0 ≤ (w.app a).appSocket) : (w.app a).appSocket ∈ w.ownFds := by
    unfold Wksp.ownFds
    rw [sum_split (fun st : AppState => openFd st.appSocket) w.app a, add_assoc]
    exact Multiset.mem_add.mpr (.inl (mem_openFd hfd))
  have hpreauth : ∀ cbs : List Cb, ∀ cb ∈ cbs, 0 ≤ cb.preauth → cb.preauth ∈ preauths cbs := by
    intro cbs
    induction cbs with
    | nil => intro cb hno; cases hno
    | cons x cbs ih =>
        intro cb hcb hfd
        rw [preauths_cons, Multiset.mem_add]
        rcases List.mem_cons.mp hcb with rfl | hcb
        · exact .inl (mem_openFd hfd)
        · exact .inr (ih cb hcb hfd)
  unfold selected at h
  simp only [List.mem_append, List.mem_map, List.mem_filter, List.mem_finRange, true_and,
    Bool.and_eq_true,
    decide_eq_true_eq, List.mem_cons, List.not_mem_nil, or_false] at h
  rw [Multiset.mem_add, Multiset.mem_add]
  rcases h with ⟨i, hi, rfl⟩ | ⟨((rfl | rfl | rfl) | ⟨cb, hcb, rfl⟩) | rfl, hfd⟩
  · exact .inl (hfds i hi.2)
  · exact .inr (.inr (happ .wps hfd))
  · exact .inr (.inr (happ .ses hfd))
  · exact .inr (.inr (happ .nas hfd))
  · exact .inr (.inl (hpreauth _ cb hcb hfd))
  · exact .inr (.inr (Multiset.mem_add.mpr (.inr (mem_openFd hfd))))

/-- **What is put into the set is owned.** -/
theorem Owned.fdSet (h : Owned w) : Owned (fdSet w) :=
  Shares.others h rfl rfl (h.held.uses fun _ hfd => selected_mem hfd)

theorem noBrcm_fdSet {name : Bytes} :
    NoBrcm k name (Eapd.fdSet w).sockets ↔ NoBrcm k name w.sockets := by
  unfold NoBrcm
  rw [freeBrcm_none, freeBrcm_none]
  exact Iff.rfl

end

/-! ## Runs -/

/-- What a step must not do: `start` gets through the blocks of `nas`, and an interface that is
added is the first one of its bridge and gets its sockets. -/
def StepOwned (k : Nat → Answer) (p : Proc) : ProcEvent → Prop
  | .start _ => p.phase = .config → GetsThrough k p.w
  | .dispatch (some (h, .add ifname)) => p.phase = .running → AddsOwned k h ifname p.w
  | _ => True

/-- The invariant of the process. -/
structure ProcInv (p : Proc) : Prop where
  config : p.phase = .config → Configured p.w
  idle : p.phase = .config → p.needStart = false → (p.w.app .nas).cb = []
  running : p.phase = .running → Owned p.w
  held : Held 0 p.w.sockets.log

section

variable {k : Nat → Answer} {p : Proc}

theorem ProcInv.ofOwned (h : Owned p.w) (hphase : p.phase = .running) : ProcInv p where
  config hno := by rw [hphase] at hno; cases hno
  idle hno := by rw [hphase] at hno; cases hno
  running _ := h
  held := h.held.mono (Multiset.zero_le _)

theorem ProcInv.ofConfigured (h : Configured p.w) (hphase : p.phase = .config)
    (hidle : p.needStart = false → (p.w.app .nas).cb = []) : ProcInv p where
  config _ := h
  idle _ := hidle
  running hno := by rw [hphase] at hno; cases hno
  held := by rw [h.sockets]; exact Held.nil

theorem ProcInv.init : ProcInv Proc.init :=
  .ofConfigured ⟨rfl, fun _ => rfl, rfl, fun _ _ hno => absurd hno List.not_mem_nil⟩ rfl fun _ =>
    rfl

theorem ProcInv.exit (h : Owned p.w) : ProcInv p.exit where
  config hno := by cases hno
  idle hno := by cases hno
  running hno := by cases hno
  held := h.eapdWkspCleanup

theorem eapdAddInterface_none {host : Host} {ifname : Bytes} {mode : App} {w : Wksp} :
    (eapdAddInterface host ifname mode w).1 = none →
    (eapdAddInterface host ifname mode w).2 = w := by
  unfold eapdAddInterface
  dsimp only
  split
  · intro _
    rfl
  · split
    · intro _
      rfl
    · split
      · intro hno
        cases hno
      · split
        · intro hno
          cases hno
        · intro _
          rfl

/-- **Every step that may be taken keeps the invariant.** -/
theorem ProcInv.step (h : ProcInv p) (e : ProcEvent) (hok : StepOwned k p e) :
    ProcInv (procStep k p e) := by
  cases e with
  | addInterface host mode ifname =>
      unfold procStep
      dsimp only
      split
      · rename_i hconfig
        refine .ofConfigured ((h.config hconfig).eapdAddInterface host ifname mode) hconfig
          fun hidle => ?_
        dsimp only at hidle ⊢
        rw [Bool.or_eq_false_iff, Option.isSome_eq_false_iff, Option.isNone_iff_eq_none] at hidle
        rw [eapdAddInterface_none hidle.2]
        exact h.idle hconfig hidle.1
      · exact h
  | start daemon =>
      unfold procStep
      dsimp only
      split
      · rename_i hconfig
        have hcfg := h.config hconfig
        split
        · have howned := hcfg.eapdWkspInit (hok hconfig)
          split
          · exact .ofOwned howned rfl
          · exact .exit howned
        · rename_i hidle
          refine .exit ?_
          unfold Owned
          rw [h.idle hconfig (eq_false_of_ne_true hidle)]
          exact hcfg.ownedWith
      · exact h
  | dispatch msg =>
      unfold procStep
      dsimp only
      split
      · rename_i hrunning
        have howned := h.running hrunning
        split
        · exact .exit howned
        · unfold eapdWkspDispatch
          split
          · exact .ofOwned howned.fdSet hrunning
          · refine .ofOwned ?_ hrunning
            unfold hotplug
            cases msg with
            | none => exact howned.fdSet
            | some msg =>
                obtain ⟨host, msg⟩ := msg
                cases msg with
                | delete ifname =>
                    dsimp only
                    split
                    · exact howned.fdSet.eapdDeleteDif
                    · exact howned.fdSet
                | add ifname =>
                    dsimp only
                    split
                    · apply howned.fdSet.eapdAddDif
                      intro names hnames
                      obtain ⟨hnew, hwpa2, hbrcm⟩ := hok hrunning names hnames
                      exact ⟨hnew, hwpa2, mt noBrcm_fdSet.mp hbrcm⟩
                    · exact howned.fdSet
      · exact h
  | term =>
      unfold procStep
      dsimp only
      split
      · rename_i hrunning
        exact .ofOwned (h.running hrunning) hrunning
      · exact h

end

/-- How many control blocks refer to a slot. -/
def references (w : Wksp) (i : BrcmSlot) : Nat :=
  ∑ a, (w.app a).cb.countP fun cb => cb.brcmSocket = some i

theorem count_refs (cbs : List Cb) (i : BrcmSlot) :
    ((refs cbs).map Prod.fst).count i = cbs.countP fun cb => cb.brcmSocket = some i := by
  induction cbs with
  | nil => rfl
  | cons cb cbs ih =>
      rw [refs_cons, Multiset.map_add, Multiset.count_add, ih, List.countP_cons, add_comm]
      congr 1
      unfold Cb.ref
      cases cb.brcmSocket with
      | none => simp
      | some j => simp [Multiset.count_singleton, eq_comm]

theorem count_references (w : Wksp) (i : BrcmSlot) :
    ((∑ a, refs (w.app a).cb).map Prod.fst).count i = references w i := by
  have hmap : (∑ a, refs (w.app a).cb).map Prod.fst = ∑ a, (refs (w.app a).cb).map Prod.fst :=
    map_sum (Multiset.mapAddMonoidHom Prod.fst) _ _
  rw [hmap, Multiset.count_sum']
  exact Finset.sum_congr rfl fun a _ => count_refs _ i

/-- **Sockets are owned.** In a run whose steps may be taken, as far as the kernel hands out
descriptors that are not open: only descriptors that are open are put into the set and closed; and
as long as `eapd` runs, the counts are those of the references, and slots in use have different
names. -/
theorem sockets_owned (k : Nat → Answer) (es : List ProcEvent)
    (hkernel : Fresh (run (procStep k) Proc.init es).w.sockets.log)
    (hsteps : Along (procStep k) (StepOwned k) Proc.init es) :
    Legal (run (procStep k) Proc.init es).w.sockets.log ∧
      ((run (procStep k) Proc.init es).phase ≠ .exited →
        (∀ i, ((run (procStep k) Proc.init es).w.sockets.brcmSocket i).inuseCount =
          references (run (procStep k) Proc.init es).w i) ∧
        ∀ i j, 0 < ((run (procStep k) Proc.init es).w.sockets.brcmSocket i).inuseCount →
          0 < ((run (procStep k) Proc.init es).w.sockets.brcmSocket j).inuseCount →
          ((run (procStep k) Proc.init es).w.sockets.brcmSocket i).ifname =
            ((run (procStep k) Proc.init es).w.sockets.brcmSocket j).ifname → i = j) := by
  have hinv : ProcInv (run (procStep k) Proc.init es) :=
    run_invariant (fun p e hp he => hp.step e he) .init hsteps
  generalize run (procStep k) Proc.init es = p at hkernel hinv ⊢
  refine ⟨(hinv.held hkernel).1, fun hphase => ?_⟩
  have hshares : ∃ X, OwnedWith X p.w := by
    cases hp : p.phase with
    | config => exact ⟨_, (hinv.config hp).ownedWith⟩
    | running => exact ⟨_, hinv.running hp⟩
    | exited => exact absurd hp hphase
  obtain ⟨X, hshares⟩ := hshares
  refine ⟨fun i => (hshares.count i).trans (count_references p.w i), fun i j hi hj heq => ?_⟩
  exact hshares.distinct i j ((hshares.live_iff i).mpr hi) ((hshares.live_iff j).mpr hj) heq

/-- The second interface comes and goes. -/
def repeaterRun : List ProcEvent :=
  [.addInterface repeaterHost .nas wl0, .start true, .dispatch (some (repeaterHost, .add wl01)),
    .dispatch none, .dispatch (some (repeaterHost, .delete wl01)), .term, .dispatch none]

set_option maxRecDepth 100000 in
theorem sockets_owned_repeater :
    Fresh (run (procStep openAll) Proc.init repeaterRun).w.sockets.log ∧
      Legal (run (procStep openAll) Proc.init repeaterRun).w.sockets.log := by
  have hkernel : Fresh (run (procStep openAll) Proc.init repeaterRun).w.sockets.log := by
    decide +kernel
  have hthrough : GetsThrough openAll (run (procStep openAll) Proc.init (repeaterRun.take 1)).w :=
    .inr (by decide +kernel)
  have hnames :
      addedNames repeaterHost wl01 (run (procStep openAll) Proc.init (repeaterRun.take 2)).w =
      some (wl01, wl01) := by decide +kernel
  have hadds :
      AddsOwned openAll repeaterHost wl01
      (run (procStep openAll) Proc.init (repeaterRun.take 2)).w := by
    intro names hmem
    obtain rfl := Option.some.inj (hnames.symm.trans hmem)
    decide +kernel
  refine ⟨hkernel, (sockets_owned openAll repeaterRun hkernel ?_).1⟩
  exact ⟨trivial, fun _ => hthrough, fun _ => hadds, trivial, trivial, trivial, trivial, trivial⟩

/-- The bridge is not there: no socket can be bound to it. -/
def refuse (n : Nat) : Answer := ⟨some (3 + n), false, false⟩

set_option maxRecDepth 100000 in
/-- **A failed startup closes descriptor 0**, which `eapd` never opened: the control block of `nas`
is as `memset` left it. -/
theorem startup_closes_stdin :
    Fresh (run (procStep refuse) Proc.init
        [.addInterface repeaterHost .wps wl0, .addInterface repeaterHost .nas wl0,
          .start true]).w.sockets.log ∧
      ¬Legal (run (procStep refuse) Proc.init
        [.addInterface repeaterHost .wps wl0, .addInterface repeaterHost .nas wl0,
          .start true]).w.sockets.log := by
  decide +kernel

end BroadcomWl.Eapd
