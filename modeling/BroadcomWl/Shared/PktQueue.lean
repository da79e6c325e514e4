import BroadcomWl.Lib.Calls
import BroadcomWl.Lib.Chain

/-!
# The packet queue

`bcmutils.c`: a queue of packets with several precedences. Each precedence is a chain of packets,
linked through the packets themselves, with pointers to its two ends; the queue counts its packets,
and has a hint at the highest precedence that is not empty.

**The abstract queue** (`Queues`) is a list for each precedence. `Shows` relates the two, and
`pktq_refines` says that no calls tell them apart, as long as they are `Allowed`: a packet that is
put in is in no list, and there are no filters.

`pktq_pflush` with a filter is apart: `pflush_filter` says what it takes out, when the pointer to
the last packet is right afterwards, and where the next packet goes if it is not. -/

namespace BroadcomWl.Shared.PktQueue

open BroadcomWl.Lib

/-! ## The code -/

/-- `pktq_prec_t`; packets are numbers. -/
structure Prec where
  head : Option Nat
  tail : Option Nat
  len : Nat
  max : Nat

/-- `struct pktq` -/
structure Pktq where
  numPrec : Nat
  hiPrec : Nat
  max : Nat
  len : Nat
  q : Nat → Prec

/-- The queue, and the links of all packets (`PKTLINK`). -/
structure State where
  link : Nat → Option Nat
  pq : Pktq

/-- `PKTSETLINK`; there is nothing to set at a null pointer. -/
def setLink (link : Nat → Option Nat) (p x : Option Nat) : Nat → Option Nat :=
  match p with
  | some p => Function.update link p x
  | none => link

/-- `q->len++, pq->len++`, and the hint. -/
def State.added (s : State) (prec : Nat) (link : Nat → Option Nat) (q : Prec) : State where
  link := link
  pq := { s.pq with
    q := Function.update s.pq.q prec { q with len := q.len + 1 }
    len := s.pq.len + 1
    hiPrec := if s.pq.hiPrec < prec then prec else s.pq.hiPrec }

theorem State.head_added (s : State) (prec : Nat) (link : Nat → Option Nat) (q : Prec) :
    ((s.added prec link q).pq.q prec).head = q.head := by
  simp only [State.added, Function.update_self]

/-- `q->len--, pq->len--` -/
def State.removed (s : State) (prec : Nat) (link : Nat → Option Nat) (q : Prec) : State where
  link := link
  pq := { s.pq with
    q := Function.update s.pq.q prec { q with len := q.len - 1 }
    len := s.pq.len - 1 }

/-- `q->tail = tail` -/
def State.setTail (s : State) (prec : Nat) (tail : Option Nat) : State :=
  { s with pq := { s.pq with q := Function.update s.pq.q prec { s.pq.q prec with tail := tail } } }

/-- `pktq_penq` -/
def penq (s : State) (prec p : Nat) : State :=
  let q := s.pq.q prec
  if q.head.isSome then s.added prec (setLink s.link q.tail (some p)) { q with tail := some p }
  else s.added prec s.link { q with head := some p, tail := some p }

/-- `pktq_penq_head` -/
def penqHead (s : State) (prec p : Nat) : State :=
  let q := s.pq.q prec
  let q := if q.head.isNone then { q with tail := some p } else q
  s.added prec (setLink s.link (some p) q.head) { q with head := some p }

/-- Take the first packet `p` of a precedence out. -/
def takeHead (s : State) (prec p : Nat) : State :=
  let q := s.pq.q prec
  let q := { q with head := s.link p }
  let q := if q.head.isNone then { q with tail := none } else q
  s.removed prec (setLink s.link (some p) none) q

/-- `pktq_pdeq` -/
def pdeq (s : State) (prec : Nat) : Option Nat × State :=
  match (s.pq.q prec).head with
  | none => (none, s)
  | some p => (some p, takeHead s prec p)

/-- `pktq_pdeq_prev` -/
def pdeqPrev (s : State) (prec : Nat) (prev : Option Nat) : Option Nat × State :=
  match prev with
  | none => (none, s)
  | some b =>
    match s.link b with
    | none => (none, s)
    | some p =>
      let q := s.pq.q prec
      let q := if q.tail = some p then { q with tail := some b } else q
      (some p, s.removed prec (setLink (setLink s.link (some b) (s.link p)) (some p) none) q)

/-- The loop that looks for the last packet and the one before it; it does not end if that is not in
the chain. -/
def findTail (link : Nat → Option Nat) (tail : Option Nat) :
    Nat → Option Nat → Option Nat → Option (Option Nat × Option Nat)
  | 0, prev, p => if p = tail then some (prev, p) else none
  | n + 1, prev, p =>
    if p = tail then some (prev, p)
    else
      match p with
      | none => none
      | some a => findTail link tail n p (link a)

/-- Take the last packet of a precedence out: the packet, and the state before its own link is
changed. -/
def takeTail (s : State) (prec : Nat) : Option (Option Nat × State) :=
  let q := s.pq.q prec
  (findTail s.link q.tail q.len none q.head).map fun (prev, p) =>
    let q' := if prev.isSome then q else { q with head := none }
    (p, s.removed prec (setLink s.link prev none) { q' with tail := prev })

/-- `pktq_pdeq_tail` -/
def pdeqTail (s : State) (prec : Nat) : Option (Option Nat × State) :=
  if (s.pq.q prec).head = none then some (none, s) else takeTail s prec

/-- `pktq_pdel` -/
def pdel (s : State) (pktbuf : Option Nat) (prec : Nat) : Option (Bool × State) :=
  match pktbuf with
  | none => some (false, s)
  | some a =>
    let q := s.pq.q prec
    if q.head = some a then some (true, takeHead s prec a)
    else
      (walk s.link (fun b => s.link b = some a) q.len q.head).map fun
        | none => (false, s)
        | some b =>
          let q := if q.tail = some a then { q with tail := some b } else q
          (true, s.removed prec (setLink (setLink s.link (some b) (s.link a)) (some a) none) q)

/-- The loop of `pktq_pflush`: the packets that are freed. -/
def pflushLoop (fn : Nat → Bool) (prec : Nat) :
    Nat → State → Option Nat → Option Nat → Option (List Nat × State)
  | _, s, _, none => some ([], s)
  | 0, _, _, some _ => none
  | n + 1, s, prev, some p =>
    if fn p then
      let head := (s.pq.q prec).head = some p
      let q := s.pq.q prec
      let s' :=
        if head then s.removed prec (setLink s.link (some p) none) { q with head := s.link p }
        else s.removed prec (setLink (setLink s.link prev (s.link p)) (some p) none) q
      let next := if head then (s'.pq.q prec).head else prev.bind s'.link
      (pflushLoop fn prec n s' prev next).map fun (ps, s) => (p :: ps, s)
    else pflushLoop fn prec n s (some p) (s.link p)

/-- `pktq_pflush`; without a filter `fn` is always true. -/
def pflush (s : State) (prec : Nat) (fn : Nat → Bool) : Option (List Nat × State) :=
  (pflushLoop fn prec (s.pq.q prec).len s none (s.pq.q prec).head).map fun (ps, s) =>
    (ps, if (s.pq.q prec).head = none then s.setTail prec none else s)

/-- The loop of `pktq_flush`. -/
def flushLoop (fn : Nat → Bool) : List Nat → State → Option (List Nat × State)
  | [], s => some ([], s)
  | prec :: precs, s => do
    let (ps, s) ← pflush s prec fn
    let (ps', s) ← flushLoop fn precs s
    some (ps ++ ps', s)

/-- `pktq_flush` -/
def flush (s : State) (fn : Nat → Bool) : Option (List Nat × State) :=
  if s.pq.len = 0 then some ([], s) else flushLoop fn (List.range s.pq.numPrec) s

/-- `pktq_init` -/
def init (numPrec maxLen : Nat) : Pktq where
  numPrec := numPrec
  hiPrec := 0
  max := maxLen % 2 ^ 16
  len := 0
  q := fun _ => { head := none, tail := none, len := 0, max := maxLen % 2 ^ 16 }

/-- `pktq_set_max_plen` -/
def setMaxPlen (s : State) (prec maxLen : Nat) : State :=
  if prec < s.pq.numPrec then
    { s with pq := { s.pq with
      q := Function.update s.pq.q prec { s.pq.q prec with max := maxLen % 2 ^ 16 } } }
  else s

/-- `while ((prec = pq->hi_prec) > 0 && pq->q[prec].head == NULL) pq->hi_prec--` -/
def lowerHi (q : Nat → Prec) : Nat → Nat
  | 0 => 0
  | prec + 1 => if (q (prec + 1)).head.isNone then lowerHi q prec else prec + 1

def State.lowered (s : State) : State :=
  { s with pq := { s.pq with hiPrec := lowerHi s.pq.q s.pq.hiPrec } }

/-- `for (prec = 0; prec < pq->hi_prec; prec++) if (pq->q[prec].head) break`, from `prec` on -/
def lowest (q : Nat → Prec) : Nat → Nat → Nat
  | 0, prec => prec
  | n + 1, prec => if (q prec).head.isSome then prec else lowest q n (prec + 1)

/-- The loop over a set of precedences, from `prec` down. -/
def highestIn (q : Nat → Prec) (precBmp : Nat) : Nat → Option Nat
  | 0 => if (q 0).head.isNone ∨ precBmp &&& 1 <<< 0 = 0 then none else some 0
  | prec + 1 =>
    if (q (prec + 1)).head.isNone ∨ precBmp &&& 1 <<< (prec + 1) = 0 then highestIn q precBmp prec
    else some (prec + 1)

/-- `pktq_deq`: the packet and its precedence. -/
def deq (s : State) : Option (Nat × Nat) × State :=
  if s.pq.len = 0 then (none, s)
  else
    let s := s.lowered
    let prec := s.pq.hiPrec
    match (s.pq.q prec).head with
    | none => (none, s)
    | some p => (some (p, prec), takeHead s prec p)

/-- `pktq_deq_tail` -/
def deqTail (s : State) : Option (Option (Nat × Nat) × State) :=
  if s.pq.len = 0 then some (none, s)
  else
    let prec := lowest s.pq.q s.pq.hiPrec 0
    if (s.pq.q prec).head = none then some (none, s)
    else (takeTail s prec).map fun (p, s) =>
      (p.map fun p => (p, prec), { s with link := setLink s.link p none })

/-- `pktq_peek`: what it returns, and the precedence that is written. -/
def peek (s : State) : (Option Nat × Option Nat) × State :=
  if s.pq.len = 0 then ((none, none), s)
  else
    let s := s.lowered
    (((s.pq.q s.pq.hiPrec).head, some s.pq.hiPrec), s)

/-- `pktq_peek_tail` -/
def peekTail (s : State) : Option Nat × Option Nat :=
  if s.pq.len = 0 then (none, none)
  else
    let prec := lowest s.pq.q s.pq.hiPrec 0
    ((s.pq.q prec).tail, some prec)

/-- `pktq_mlen` -/
def mlen (s : State) (precBmp : Nat) : Nat :=
  (List.range (s.pq.hiPrec + 1)).foldl
    (fun len prec => if precBmp &&& 1 <<< prec ≠ 0 then len + (s.pq.q prec).len else len) 0

/-- `pktq_mpeek` -/
def mpeek (s : State) (precBmp : Nat) : Option (Nat × Nat) × State :=
  if s.pq.len = 0 then (none, s)
  else
    let s := s.lowered
    (do
      let prec ← highestIn s.pq.q precBmp s.pq.hiPrec
      let p ← (s.pq.q prec).head
      some (p, prec), s)

/-- `pktq_mdeq`: the loops are those of `pktq_mpeek`. -/
def mdeq (s : State) (precBmp : Nat) : Option (Nat × Nat) × State :=
  match mpeek s precBmp with
  | (none, s) => (none, s)
  | (some (p, prec), s) => (some (p, prec), takeHead s prec p)

/-! ## The abstract queue -/

/-- A list of packets for each precedence. -/
structure Queues where
  numPrec : Nat
  max : Nat
  pmax : Nat → Nat
  l : Nat → List Nat

inductive Call
  | penq (prec p : Nat)
  | penqHead (prec p : Nat)
  | pdeq (prec : Nat)
  | pdeqPrev (prec : Nat) (prev : Option Nat)
  | pdeqTail (prec : Nat)
  | pdel (pktbuf : Option Nat) (prec : Nat)
  | pflush (prec : Nat)
  | flush
  | setMaxPlen (prec maxLen : Nat)
  | deq
  | deqTail
  | peek
  | peekTail
  | mlen (precBmp : Nat)
  | mpeek (precBmp : Nat)
  | mdeq (precBmp : Nat)

/-- What a call returns. -/
inductive Answer
  /-- a packet, and the precedence that is written -/
  | packet (p : Option Nat) (prec : Option Nat)
  | found (b : Bool)
  | count (n : Nat)
  | freed (ps : List Nat)
  /-- a loop that does not end, or a null pointer -/
  | stuck
  deriving DecidableEq

/-- A call that may get stuck. -/
def orStuck {α : Type} (s : State) (answer : α → Answer) : Option (α × State) → Answer × State
  | none => (.stuck, s)
  | some (a, s) => (answer a, s)

def State.call (s : State) : Call → Answer × State
  | .penq prec p => (.packet (some p) none, penq s prec p)
  | .penqHead prec p => (.packet (some p) none, penqHead s prec p)
  | .pdeq prec => (.packet (pdeq s prec).1 none, (pdeq s prec).2)
  | .pdeqPrev prec prev => (.packet (pdeqPrev s prec prev).1 none, (pdeqPrev s prec prev).2)
  | .pdeqTail prec => orStuck s (fun p => .packet p none) (pdeqTail s prec)
  | .pdel pktbuf prec => orStuck s .found (pdel s pktbuf prec)
  | .pflush prec => orStuck s .freed (pflush s prec fun _ => true)
  | .flush => orStuck s .freed (flush s fun _ => true)
  | .setMaxPlen prec maxLen => (.packet none none, setMaxPlen s prec maxLen)
  | .deq => (.packet ((deq s).1.map Prod.fst) ((deq s).1.map Prod.snd), (deq s).2)
  | .deqTail => orStuck s (fun r => .packet (r.map Prod.fst) (r.map Prod.snd)) (deqTail s)
  | .peek => (.packet (peek s).1.1 (peek s).1.2, (peek s).2)
  | .peekTail => (.packet (peekTail s).1 (peekTail s).2, s)
  | .mlen precBmp => (.count (mlen s precBmp), s)
  | .mpeek precBmp =>
    (.packet ((mpeek s precBmp).1.map Prod.fst) ((mpeek s precBmp).1.map Prod.snd),
      (mpeek s precBmp).2)
  | .mdeq precBmp =>
    (.packet ((mdeq s precBmp).1.map Prod.fst) ((mdeq s precBmp).1.map Prod.snd),
      (mdeq s precBmp).2)

/-- Other packets for a precedence. -/
def Queues.set (t : Queues) (prec : Nat) (l : List Nat) : Queues :=
  { t with l := Function.update t.l prec l }

/-- The highest precedence of a set that has packets. -/
def Queues.highest (t : Queues) (precBmp : Nat → Bool) : Option Nat :=
  (List.range t.numPrec).reverse.find? fun prec => !(t.l prec).isEmpty && precBmp prec

/-- The lowest precedence that has packets. -/
def Queues.lowest (t : Queues) : Option Nat :=
  (List.range t.numPrec).find? fun prec => !(t.l prec).isEmpty

/-- The first packet of a precedence, if there is one. -/
def Queues.first (t : Queues) (prec : Option Nat) : Answer :=
  .packet (prec.bind fun prec => (t.l prec).head?) prec

/-- The last packet of a precedence, if there is one. -/
def Queues.last (t : Queues) (prec : Option Nat) : Answer :=
  .packet (prec.bind fun prec => (t.l prec).getLast?) prec

/-- Without the first packet of a precedence. -/
def Queues.dropFirst (t : Queues) : Option Nat → Queues
  | none => t
  | some prec => t.set prec (t.l prec).tail

/-- Without the last packet of a precedence. -/
def Queues.dropLast (t : Queues) : Option Nat → Queues
  | none => t
  | some prec => t.set prec (t.l prec).dropLast

/-- All packets. -/
def Queues.size (t : Queues) : Nat := ∑ prec ∈ Finset.range t.numPrec, (t.l prec).length

/-- The packet behind another one. -/
def after (l : List Nat) (a : Nat) : Option Nat := (l.drop (l.idxOf a + 1)).head?

def Queues.call (t : Queues) : Call → Answer × Queues
  | .penq prec p => (.packet (some p) none, t.set prec (t.l prec ++ [p]))
  | .penqHead prec p => (.packet (some p) none, t.set prec (p :: t.l prec))
  | .pdeq prec => (.packet (t.l prec).head? none, t.set prec (t.l prec).tail)
  | .pdeqPrev prec prev =>
    let p := prev.bind (after (t.l prec))
    (.packet p none, t.set prec ((t.l prec).filter fun a => some a ≠ p))
  | .pdeqTail prec => (.packet (t.l prec).getLast? none, t.set prec (t.l prec).dropLast)
  | .pdel pktbuf prec =>
    (.found (pktbuf.any fun a => a ∈ t.l prec),
      t.set prec ((t.l prec).filter fun a => some a ≠ pktbuf))
  | .pflush prec => (.freed (t.l prec), t.set prec [])
  | .flush => (.freed ((List.range t.numPrec).flatMap t.l), { t with l := fun _ => [] })
  | .setMaxPlen prec maxLen =>
    (.packet none none,
      if prec < t.numPrec then { t with pmax := Function.update t.pmax prec (maxLen % 2 ^ 16) }
      else t)
  | .deq => (t.first (t.highest fun _ => true), t.dropFirst (t.highest fun _ => true))
  | .deqTail => (t.last t.lowest, t.dropLast t.lowest)
  | .peek => (t.first (t.highest fun _ => true), t)
  | .peekTail => (t.last t.lowest, t)
  | .mlen precBmp =>
    (.count (∑ prec ∈ Finset.range t.numPrec, if precBmp.testBit prec then (t.l prec).length
      else 0), t)
  | .mpeek precBmp => (t.first (t.highest precBmp.testBit), t)
  | .mdeq precBmp => (t.first (t.highest precBmp.testBit), t.dropFirst (t.highest precBmp.testBit))

/-- A precedence in use. -/
def Queues.hasPrec (t : Queues) (prec : Nat) : Prop := prec < t.numPrec

/-- A packet may be put into the queue: it is in none, and neither the queue nor the precedence is
full. -/
def Queues.canPut (t : Queues) (prec p : Nat) : Prop :=
  prec < t.numPrec ∧ (∀ i < t.numPrec, p ∉ t.l i) ∧ t.size < t.max ∧ (t.l prec).length < t.pmax prec

instance (t : Queues) (prec p : Nat) : Decidable (t.canPut prec p) :=
  inferInstanceAs (Decidable (prec < t.numPrec ∧ (∀ i < t.numPrec, p ∉ t.l i) ∧ t.size < t.max ∧
    (t.l prec).length < t.pmax prec))

/-- What is asked of a call: what the code asserts, and more than that, as a packet that is put in
is in no list (the code asks that `PKTLINK` of it is null), and `prev` is in the chain (which the
code does not ask). -/
def Allowed (t : Queues) : Call → Prop
  | .penq prec p => t.canPut prec p
  | .penqHead prec p => t.canPut prec p
  | .pdeq prec => t.hasPrec prec
  | .pdeqPrev prec prev => t.hasPrec prec ∧ ∀ a ∈ prev, a ∈ t.l prec
  | .pdeqTail prec => t.hasPrec prec
  | .pdel _ prec => t.hasPrec prec
  | .pflush prec => t.hasPrec prec
  | .setMaxPlen prec _ => t.hasPrec prec
  | _ => True

instance Allowed.decidable (t : Queues) (e : Call) : Decidable (Allowed t e) := by
  cases e <;> simp only [Allowed, Queues.hasPrec] <;> infer_instance

/-! ## The relation -/

/-- A precedence holds the packets of a list. -/
structure ShowsPrec (link : Nat → Option Nat) (q : Prec) (l : List Nat) : Prop where
  chain : IsChain link q.head l
  tail : q.tail = l.getLast?
  len : q.len = l.length

/-- The queue holds the packets of the abstract one. -/
structure Shows (s : State) (t : Queues) : Prop where
  numPrec : s.pq.numPrec = t.numPrec
  max : s.pq.max = t.max
  queue : ∀ i < t.numPrec, ShowsPrec s.link (s.pq.q i) (t.l i)
  pmax : ∀ i < t.numPrec, (s.pq.q i).max = t.pmax i
  nodup : ∀ i < t.numPrec, (t.l i).Nodup
  apart : ∀ i < t.numPrec, ∀ j < t.numPrec, i ≠ j → ∀ p ∈ t.l i, p ∉ t.l j
  len : s.pq.len = t.size
  hi_lt : s.pq.hiPrec < t.numPrec
  /-- the hint -/
  hi : ∀ i < t.numPrec, t.l i ≠ [] → i ≤ s.pq.hiPrec
  unlinked : ∀ p, (∀ i < t.numPrec, p ∉ t.l i) → s.link p = none

theorem ShowsPrec.congr {link link' : Nat → Option Nat} {q : Prec} {l : List Nat}
    (h : ShowsPrec link q l) (hl : ∀ a ∈ l, link' a = link a) : ShowsPrec link' q l :=
  ⟨h.chain.congr hl, h.tail, h.len⟩

section

variable {s : State} {t : Queues} {prec : Nat}

@[simp] theorem Queues.set_self (t : Queues) (prec : Nat) (l : List Nat) :
    (t.set prec l).l prec = l := Function.update_self _ _ _

theorem Queues.set_of_ne (t : Queues) (l : List Nat) {i : Nat} (hi : i ≠ prec) :
    (t.set prec l).l i = t.l i :=
  Function.update_of_ne hi _ _

theorem Queues.size_set (t : Queues) (hprec : prec < t.numPrec) (l : List Nat) :
    (t.set prec l).size + (t.l prec).length = t.size + l.length := by
  have hmem := Finset.mem_range.mpr hprec
  have hset : (t.set prec l).size = l.length + ∑ i ∈ (Finset.range t.numPrec).erase prec,
      (t.l i).length := by
    have hsum :=
      Finset.add_sum_erase (Finset.range t.numPrec) (fun i => ((t.set prec l).l i).length) hmem
    rw [t.set_self prec l] at hsum
    refine hsum.symm.trans (congrArg _ (Finset.sum_congr rfl fun i hi => ?_))
    rw [t.set_of_ne l (Finset.ne_of_mem_erase hi)]
  rw [hset, Queues.size, ← Finset.add_sum_erase _ _ hmem]
  omega

/-- **One precedence changes**, and packets come into it from outside or leave the queue. -/
theorem Shows.replace (h : Shows s t) (hprec : prec < t.numPrec) {link : Nat → Option Nat}
    {q : Prec} {l : List Nat} {len hi : Nat} (hq : ShowsPrec link q l)
    (hmax : q.max = (s.pq.q prec).max) (hnodup : l.Nodup)
    (hnew : ∀ p ∈ l, p ∈ t.l prec ∨ ∀ i < t.numPrec, p ∉ t.l i)
    (hsame : ∀ p, p ∉ t.l prec → p ∉ l → link p = s.link p)
    (hgone : ∀ p ∈ t.l prec, p ∉ l → link p = none)
    (hlen : len + (t.l prec).length = s.pq.len + l.length) (hlt : hi < t.numPrec)
    (hhi : ∀ i < t.numPrec, (t.set prec l).l i ≠ [] → i ≤ hi) :
    Shows { link := link, pq := { s.pq with
        q := Function.update s.pq.q prec q, len := len, hiPrec := hi } } (t.set prec l) := by
  have hself := t.set_self prec l
  have hother {i : Nat} (hi : i ≠ prec) := t.set_of_ne l hi
  constructor
  · exact h.numPrec
  · exact h.max
  · intro i hi
    dsimp only
    by_cases heq : i = prec
    · subst heq
      rw [Function.update_self, hself]
      exact hq
    · rw [Function.update_of_ne heq, hother heq]
      refine (h.queue i hi).congr fun a ha => ?_
      have hnot : a ∉ t.l prec := h.apart i hi prec hprec heq a ha
      refine hsame a hnot fun hmem => ?_
      exact (hnew a hmem).elim hnot fun hnone => hnone i hi ha
  · intro i hi
    dsimp only
    by_cases heq : i = prec
    · subst heq
      rw [Function.update_self, hmax]
      exact h.pmax i hi
    · rw [Function.update_of_ne heq]
      exact h.pmax i hi
  · intro i hi
    by_cases heq : i = prec
    · subst heq
      rwa [hself]
    · rw [hother heq]
      exact h.nodup i hi
  · intro i hi j hj hij p hp
    by_cases hi' : i = prec
    · subst hi'
      rw [hself] at hp
      rw [hother (Ne.symm hij)]
      exact (hnew p hp).elim (fun hmem => h.apart i hi j hj hij p hmem) fun hnone => hnone j hj
    · rw [hother hi'] at hp
      by_cases hj' : j = prec
      · subst hj'
        rw [hself]
        intro hmem
        exact (hnew p hmem).elim (h.apart i hi j hj hij p hp) fun hnone => hnone i hi hp
      · rw [hother hj']
        exact h.apart i hi j hj hij p hp
  · have hsize := t.size_set hprec l
    have hbefore := h.len
    dsimp only
    omega
  · exact hlt
  · exact hhi
  · intro p hp
    have hnot := hp prec hprec
    rw [hself] at hnot
    by_cases hmem : p ∈ t.l prec
    · exact hgone p hmem hnot
    · dsimp only
      rw [hsame p hmem hnot]
      refine h.unlinked p fun i hi => ?_
      by_cases heq : i = prec
      · subst heq
        exact hmem
      · have hout := hp i hi
        rwa [hother heq] at hout

/-- **A packet comes in.** -/
theorem Shows.added (h : Shows s t) (hprec : prec < t.numPrec) {p : Nat}
    (hfree : ∀ i < t.numPrec, p ∉ t.l i) {link : Nat → Option Nat} {q : Prec} {l : List Nat}
    (hchain : IsChain link q.head l) (htail : q.tail = l.getLast?)
    (hlen : q.len = (s.pq.q prec).len) (hmax : q.max = (s.pq.q prec).max)
    (hperm : l.Perm (p :: t.l prec))
    (hsame : ∀ b, b ∉ l → link b = s.link b) : Shows (s.added prec link q) (t.set prec l) := by
  have hlength := hperm.length_eq
  rw [List.length_cons] at hlength
  have hbefore := (h.queue prec hprec).len
  have hhi := h.hi_lt
  refine h.replace hprec ⟨hchain, htail, ?_⟩ hmax ?_ ?_ ?_ ?_ ?_ ?_ ?_
  · dsimp only
    omega
  · exact hperm.nodup_iff.mpr (List.nodup_cons.mpr ⟨hfree prec hprec, h.nodup prec hprec⟩)
  · intro b hb
    obtain rfl | hmem := List.mem_cons.mp (hperm.mem_iff.mp hb)
    · exact Or.inr hfree
    · exact Or.inl hmem
  · exact fun b _ hb => hsame b hb
  · intro b hb hnot
    exact absurd (hperm.mem_iff.mpr (List.mem_cons_of_mem p hb)) hnot
  · omega
  · split_ifs <;> omega
  · intro i hi hne
    by_cases heq : i = prec
    · subst heq
      split_ifs <;> omega
    · rw [t.set_of_ne l heq] at hne
      have hle := h.hi i hi hne
      split_ifs <;> omega

/-- **A packet goes out.** -/
theorem Shows.removed (h : Shows s t) (hprec : prec < t.numPrec) {p : Nat} {link : Nat → Option Nat}
    {q : Prec} {l : List Nat} (hperm : (t.l prec).Perm (p :: l)) (hchain : IsChain link q.head l)
    (htail : q.tail = l.getLast?) (hlen : q.len = (s.pq.q prec).len)
    (hmax : q.max = (s.pq.q prec).max) (hsame : ∀ b, b ∉ t.l prec → link b = s.link b)
    (hnone : link p = none) :
    Shows (s.removed prec link q) (t.set prec l) := by
  have hlength := hperm.length_eq
  rw [List.length_cons] at hlength
  have hbefore := (h.queue prec hprec).len
  have hsize := t.size_set hprec l
  have htotal := h.len
  refine h.replace hprec ⟨hchain, htail, ?_⟩ hmax ?_ ?_ ?_ ?_ ?_ h.hi_lt ?_
  · dsimp only
    omega
  · exact (List.nodup_cons.mp (hperm.nodup_iff.mp (h.nodup prec hprec))).2
  · exact fun b hb => Or.inl (hperm.mem_iff.mpr (List.mem_cons_of_mem p hb))
  · exact fun b hb _ => hsame b hb
  · intro b hb hnot
    obtain rfl | hmem := List.mem_cons.mp (hperm.mem_iff.mp hb)
    · exact hnone
    · exact absurd hmem hnot
  · omega
  · intro i hi hne
    by_cases heq : i = prec
    · subst heq
      refine h.hi i hi fun hnil => ?_
      rw [hnil, List.length_nil] at hlength
      omega
    · rw [t.set_of_ne l heq] at hne
      exact h.hi i hi hne

/-! ## One precedence -/

theorem penq_shows (h : Shows s t) {p : Nat} (hput : t.canPut prec p) :
    Shows (penq s prec p) (t.set prec (t.l prec ++ [p])) := by
  obtain ⟨hprec, hfree, -, -⟩ := hput
  have hq := h.queue prec hprec
  have hnull := h.unlinked p hfree
  have hperm : (t.l prec ++ [p]).Perm (p :: t.l prec) := List.perm_append_singleton _ _
  rcases List.eq_nil_or_concat (t.l prec) with hnil | ⟨l, a, hl⟩
  · have hchain := hq.chain
    rw [hnil] at hchain
    have hhead := isChain_nil.mp hchain
    rw [penq, hhead]
    refine h.added hprec hfree ?_ ?_ rfl rfl hperm fun _ _ => rfl
    · rw [hnil]
      exact isChain_cons.mpr ⟨rfl, isChain_nil.mpr hnull⟩
    · rw [List.getLast?_concat]
  · rw [List.concat_eq_append] at hl
    have hchain := hq.chain
    have htail := hq.tail
    have hnodup := h.nodup prec hprec
    have hnot := hfree prec hprec
    rw [hl] at hchain htail hnodup hnot
    rw [List.getLast?_concat] at htail
    have hhead : (s.pq.q prec).head.isSome = true := by
      cases hnone : (s.pq.q prec).head with
      | none =>
          rw [hnone] at hchain
          cases l <;> exact hchain.elim
      | some => rfl
    rw [penq, if_pos hhead, htail]
    refine h.added hprec hfree ?_ ?_ rfl rfl hperm fun b hb => ?_
    · rw [hl]
      exact hchain.put_last hnodup hnot hnull
    · rw [List.getLast?_concat]
    · refine Function.update_of_ne ?_ _ _
      rintro rfl
      exact hb (by rw [hl]; simp)

theorem penqHead_shows (h : Shows s t) {p : Nat} (hput : t.canPut prec p) :
    Shows (penqHead s prec p) (t.set prec (p :: t.l prec)) := by
  obtain ⟨hprec, hfree, -, -⟩ := hput
  have hq := h.queue prec hprec
  have hsame : ∀ b, b ∉ p :: t.l prec →
      Function.update s.link p (s.pq.q prec).head b = s.link b := by
    intro b hb
    refine Function.update_of_ne ?_ _ _
    rintro rfl
    exact hb List.mem_cons_self
  have hchain := hq.chain.push (hfree prec hprec)
  cases hhead : (s.pq.q prec).head with
  | none =>
      rw [penqHead, if_pos (by rw [hhead]; rfl)]
      refine h.added hprec hfree hchain ?_ rfl rfl (List.Perm.refl _) hsame
      have hnil : t.l prec = [] := by
        have hempty := hq.chain
        rw [hhead] at hempty
        cases hl : t.l prec with
        | nil => rfl
        | cons a l =>
            rw [hl] at hempty
            exact hempty.elim
      rw [hnil]
      rfl
  | some a =>
      rw [penqHead, if_neg (by rw [hhead]; exact Bool.false_ne_true)]
      refine h.added hprec hfree hchain ?_ rfl rfl (List.Perm.refl _) hsame
      have htail := hq.tail
      have hempty := hq.chain
      rw [hhead] at hempty
      cases hl : t.l prec with
      | nil =>
          rw [hl] at hempty
          exact hempty.elim
      | cons b l =>
          rw [hl] at htail
          exact htail

theorem takeHead_shows (h : Shows s t) (hprec : prec < t.numPrec) {p : Nat} {l : List Nat}
    (hl : t.l prec = p :: l) :
    Shows (takeHead s prec p) (t.set prec l) := by
  have hq := h.queue prec hprec
  have hchain := hq.chain
  have htail := hq.tail
  have hnodup := h.nodup prec hprec
  rw [hl] at hchain htail hnodup
  obtain ⟨-, hrest⟩ := isChain_cons.mp hchain
  obtain ⟨hnot, -⟩ := List.nodup_cons.mp hnodup
  have hcut : IsChain (Function.update s.link p none) (s.link p) l := by
    refine hrest.congr fun b hb => Function.update_of_ne ?_ _ _
    rintro rfl
    exact hnot hb
  have hsame : ∀ b, b ∉ t.l prec → Function.update s.link p none b = s.link b := by
    intro b hb
    refine Function.update_of_ne ?_ _ _
    rintro rfl
    exact hb (by rw [hl]; exact List.mem_cons_self)
  have hperm : (t.l prec).Perm (p :: l) := by rw [hl]
  rw [takeHead]
  cases hnext : s.link p with
  | none =>
      rw [hnext] at hcut hrest
      have hnil : l = [] := by
        cases l with
        | nil => rfl
        | cons b l => exact hrest.elim
      refine h.removed hprec hperm hcut ?_ rfl rfl hsame (Function.update_self _ _ _)
      rw [hnil]
      rfl
  | some b =>
      rw [hnext] at hcut hrest
      refine h.removed hprec hperm hcut ?_ rfl rfl hsame (Function.update_self _ _ _)
      cases l with
      | nil => exact hrest.elim
      | cons c l => exact htail

theorem skip_shows (h : Shows s t) (hprec : prec < t.numPrec) {l₁ l₂ : List Nat} {b p : Nat}
    (hl : t.l prec = l₁ ++ b :: p :: l₂) :
    Shows (s.removed prec (setLink (setLink s.link (some b) (s.link p)) (some p) none)
      (if (s.pq.q prec).tail = some p then { s.pq.q prec with tail := some b } else s.pq.q prec))
      (t.set prec (l₁ ++ b :: l₂)) := by
  have hq := h.queue prec hprec
  have hchain := hq.chain
  have htail := hq.tail
  have hnodup := h.nodup prec hprec
  rw [hl] at hchain htail hnodup
  have hperm : (l₁ ++ b :: p :: l₂).Perm (p :: (l₁ ++ b :: l₂)) := by
    have hmiddle : (l₁ ++ [b] ++ p :: l₂).Perm (p :: (l₁ ++ [b] ++ l₂)) := List.perm_middle
    rwa [List.append_assoc, List.append_assoc, List.singleton_append, List.singleton_append]
      at hmiddle
  obtain ⟨hnot, -⟩ := List.nodup_cons.mp (hperm.nodup_iff.mp hnodup)
  have hne : p ≠ b := by
    rintro rfl
    exact hnot (by simp)
  have hcut :
      IsChain (Function.update (Function.update s.link b (s.link p)) p none) (s.pq.q prec).head
      (l₁ ++ b :: l₂) := by
    refine (hchain.skip hnodup).congr fun c hc => Function.update_of_ne ?_ _ _
    rintro rfl
    exact hnot hc
  have hsame : ∀ c, c ∉ t.l prec →
      Function.update (Function.update s.link b (s.link p)) p none c = s.link c := by
    intro c hc
    rw [hl] at hc
    rw [Function.update_of_ne, Function.update_of_ne]
    · rintro rfl
      exact hc (by simp)
    · rintro rfl
      exact hc (by simp)
  rw [← hl] at hperm
  -- is it the last one?
  rcases List.eq_nil_or_concat l₂ with rfl | ⟨l₃, c, rfl⟩
  · have hlast : (s.pq.q prec).tail = some p := by
      rw [htail]
      simp
    rw [if_pos hlast]
    exact h.removed hprec hperm hcut (by simp) rfl rfl hsame (Function.update_self _ _ _)
  · rw [List.concat_eq_append] at hperm hcut htail hnot ⊢
    have hc : (s.pq.q prec).tail = some c := by
      rw [htail, ← List.cons_append, ← List.cons_append, ← List.append_assoc, List.getLast?_concat]
    have hlast : ¬(s.pq.q prec).tail = some p := by
      rw [hc]
      rintro heq
      cases heq
      exact hnot (by simp)
    rw [if_neg hlast]
    refine h.removed hprec hperm hcut ?_ rfl rfl hsame (Function.update_self _ _ _)
    rw [hc, ← List.cons_append, ← List.append_assoc, List.getLast?_concat]

theorem findTail_eq {link : Nat → Option Nat} {l : List Nat} {a : Nat} (hnot : a ∉ l) :
    ∀ {n : Nat} {prev p : Option Nat}, IsChain link p (l ++ [a]) → l.length ≤ n →
      findTail link (some a) n prev p = some (l.getLast?.or prev, some a) := by
  induction l with
  | nil =>
      intro n prev p hchain _
      obtain ⟨rfl, -⟩ := isChain_cons.mp hchain
      cases n <;> exact if_pos rfl
  | cons b l ih =>
      intro n prev p hchain hn
      obtain ⟨rfl, hrest⟩ := isChain_cons.mp hchain
      have hne : some b ≠ some a := fun heq => hnot (by cases heq; exact List.mem_cons_self)
      cases n with
      | zero => exact absurd hn (Nat.not_succ_le_zero _)
      | succ n =>
          rw [findTail, if_neg hne,
            ih (fun hmem => hnot (List.mem_cons_of_mem b hmem)) hrest (Nat.le_of_succ_le_succ hn),
            List.getLast?_cons]
          cases l.getLast? <;> rfl

theorem takeTail_shows (h : Shows s t) (hprec : prec < t.numPrec) {l : List Nat} {a : Nat}
    (hl : t.l prec = l ++ [a]) :
    ∃ s', takeTail s prec = some (some a, s') ∧ Shows s' (t.set prec l) := by
  have hq := h.queue prec hprec
  have hchain := hq.chain
  have htail := hq.tail
  have hlen := hq.len
  have hnodup := h.nodup prec hprec
  rw [hl] at hchain htail hlen hnodup
  rw [List.getLast?_concat] at htail
  rw [List.length_append, List.length_singleton] at hlen
  have hperm : (t.l prec).Perm (a :: l) := by
    rw [hl]
    exact List.perm_append_singleton _ _
  obtain ⟨hnot, -⟩ := List.nodup_cons.mp ((List.perm_append_singleton a l).nodup_iff.mp hnodup)
  have hnone : s.link a = none := hchain.next_eq
  have hfind : findTail s.link (some a) (s.pq.q prec).len none (s.pq.q prec).head =
      some (l.getLast?.or none, some a) :=
    findTail_eq hnot hchain (by omega)
  rw [takeTail, htail, hfind, Option.map_some, Option.or_none]
  refine ⟨_, rfl, ?_⟩
  rcases List.eq_nil_or_concat l with rfl | ⟨l', b, rfl⟩
  · refine h.removed hprec hperm (isChain_nil.mpr rfl) rfl rfl rfl (fun _ _ => rfl) hnone
  · rw [List.concat_eq_append] at hl hperm hchain hnot hnodup ⊢
    rw [List.append_assoc, List.singleton_append] at hchain hnodup
    have hne : a ≠ b := by
      rintro rfl
      exact hnot (by simp)
    have hcut := hchain.skip hnodup
    rw [hnone] at hcut
    rw [List.getLast?_concat]
    refine h.removed hprec hperm hcut ?_ rfl rfl ?_ ?_
    · rw [List.getLast?_concat]
    · intro c hc
      refine Function.update_of_ne ?_ _ _
      rintro rfl
      exact hc (by rw [hl]; simp)
    · exact (Function.update_of_ne hne _ _).trans hnone

theorem Shows.clear (h : Shows s t) {p : Nat} (hp : ∀ i < t.numPrec, p ∉ t.l i) :
    { s with link := setLink s.link (some p) none } = s := by
  have hlink : setLink s.link (some p) none = s.link := by
    rw [← h.unlinked p hp]
    exact Function.update_eq_self _ _
  rw [hlink]

theorem Queues.set_same (t : Queues) (prec : Nat) : t.set prec (t.l prec) = t := by
  rw [Queues.set, Function.update_eq_self]

theorem filter_ne {l₁ l₂ : List Nat} {p : Nat} (h : (l₁ ++ p :: l₂).Nodup) :
    (l₁ ++ p :: l₂).filter (fun a => some a ≠ some p) = l₁ ++ l₂ := by
  obtain ⟨hnot, -⟩ := List.nodup_cons.mp (List.perm_middle.nodup_iff.mp h)
  have hkeep {l : List Nat} (hl : ∀ a ∈ l, a ∈ l₁ ++ l₂) :
      l.filter (fun a => some a ≠ some p) = l := by
    refine List.filter_eq_self.mpr fun a ha => decide_eq_true fun heq => hnot ?_
    rw [← Option.some.inj heq]
    exact hl a ha
  rw [List.filter_append, List.filter_cons_of_neg (by simp),
    hkeep fun a ha => List.mem_append_left _ ha, hkeep fun a ha => List.mem_append_right _ ha]

theorem filter_ne_of_not_mem {l : List Nat} {p : Option Nat} (h : ∀ a ∈ p, a ∉ l) :
    l.filter (fun a => some a ≠ p) = l := by
  refine List.filter_eq_self.mpr fun a ha => decide_eq_true ?_
  rintro rfl
  exact h a rfl ha

theorem after_eq {l₁ l₂ : List Nat} {b : Nat} (hb : b ∉ l₁) :
    after (l₁ ++ b :: l₂) b = l₂.head? := by
  rw [after, List.idxOf_append_of_notMem hb, List.idxOf_cons_self, Nat.add_zero, List.drop_append,
    List.drop_of_length_le (by omega), List.nil_append, Nat.add_sub_cancel_left, List.drop_one,
    List.tail_cons]

theorem pdeqPrev_shows (h : Shows s t) (hprec : prec < t.numPrec) {prev : Option Nat}
    (hprev : ∀ a ∈ prev, a ∈ t.l prec) :
    (pdeqPrev s prec prev).1 = prev.bind (after (t.l prec)) ∧
      Shows (pdeqPrev s prec prev).2
        (t.set prec ((t.l prec).filter fun a => some a ≠ prev.bind (after (t.l prec)))) := by
  have hq := h.queue prec hprec
  have hnodup := h.nodup prec hprec
  cases prev with
  | none =>
      refine ⟨rfl, ?_⟩
      rw [Option.bind_none, filter_ne_of_not_mem fun _ ha => (Option.not_mem_none _ ha).elim,
        t.set_same]
      exact h
  | some b =>
      obtain ⟨l₁, l₂, hl⟩ := List.append_of_mem (hprev b rfl)
      have hchain := hq.chain
      rw [hl] at hchain hnodup
      obtain ⟨hnot, -⟩ := List.nodup_cons.mp (List.perm_middle.nodup_iff.mp hnodup)
      have hnext := hchain.next_eq
      have hafter : after (t.l prec) b = l₂.head? := by
        rw [hl, after_eq fun hmem => hnot (List.mem_append_left _ hmem)]
      rw [Option.bind_some, hafter, pdeqPrev]
      dsimp only
      rw [hnext]
      cases l₂ with
      | nil =>
          refine ⟨rfl, ?_⟩
          rw [List.head?_nil, filter_ne_of_not_mem fun _ ha => (Option.not_mem_none _ ha).elim,
            t.set_same]
          exact h
      | cons p l₂ =>
          refine ⟨rfl, ?_⟩
          have hfilter : (t.l prec).filter (fun a => some a ≠ some p) = l₁ ++ b :: l₂ := by
            have hsplit : l₁ ++ b :: p :: l₂ = (l₁ ++ [b]) ++ p :: l₂ := by simp
            rw [hl, hsplit, filter_ne (by rwa [← hsplit]), List.append_assoc, List.singleton_append]
          rw [List.head?_cons, hfilter]
          exact skip_shows h hprec hl

theorem pdel_shows (h : Shows s t) (hprec : prec < t.numPrec) (pktbuf : Option Nat) :
    ∃ s', pdel s pktbuf prec = some (pktbuf.any (fun a => a ∈ t.l prec), s') ∧
      Shows s' (t.set prec ((t.l prec).filter fun a => some a ≠ pktbuf)) := by
  have hq := h.queue prec hprec
  have hnodup := h.nodup prec hprec
  cases pktbuf with
  | none =>
      refine ⟨s, rfl, ?_⟩
      rw [filter_ne_of_not_mem fun _ ha => (Option.not_mem_none _ ha).elim, t.set_same]
      exact h
  | some a =>
      have hsplit {l₁ l₂ : List Nat} {b : Nat} :
          l₁ ++ b :: a :: l₂ = (l₁ ++ [b]) ++ a :: l₂ := by simp
      rw [pdel, Option.any_some]
      dsimp only
      by_cases hhead : (s.pq.q prec).head = some a
      · -- the first one
        rw [if_pos hhead]
        have hfirst := hq.chain.head_eq
        rw [hhead] at hfirst
        cases hl : t.l prec with
        | nil =>
            rw [hl] at hfirst
            cases hfirst
        | cons x l =>
            rw [hl, List.head?_cons] at hfirst
            cases hfirst
            rw [hl] at hnodup
            have hfilter : ([] ++ a :: l).filter (fun c => some c ≠ some a) = [] ++ l :=
              filter_ne hnodup
            rw [List.nil_append, List.nil_append] at hfilter
            rw [hfilter, decide_eq_true List.mem_cons_self]
            exact ⟨_, rfl, takeHead_shows h hprec hl⟩
      · rw [if_neg hhead, walk_eq _ hq.chain hq.len.ge, Option.map_some]
        cases hfind : (t.l prec).find? fun b => decide (s.link b = some a) with
        | none =>
            have hnot : a ∉ t.l prec := by
              intro hmem
              obtain hfirst | ⟨b, hb, hnext⟩ := hq.chain.linked hmem
              · exact hhead hfirst
              · exact List.find?_eq_none.mp hfind b hb (decide_eq_true hnext)
            rw [filter_ne_of_not_mem fun c hc => by cases hc; exact hnot, t.set_same,
              decide_eq_false hnot]
            exact ⟨s, rfl, h⟩
        | some b =>
            have hstop := List.find?_some hfind
            have hnext : s.link b = some a := of_decide_eq_true hstop
            obtain ⟨l₁, l₂, hl⟩ := hq.chain.split_of_next (List.mem_of_find?_eq_some hfind) hnext
            have hmem : a ∈ t.l prec := by
              rw [hl]
              simp
            have hfilter : (t.l prec).filter (fun c => some c ≠ some a) = l₁ ++ b :: l₂ := by
              rw [hl] at hnodup ⊢
              rw [hsplit, filter_ne (by rwa [← hsplit]), List.append_assoc, List.singleton_append]
            rw [hfilter, decide_eq_true hmem]
            exact ⟨_, rfl, skip_shows h hprec hl⟩

/-! ## Flushing -/

/-- **One packet is freed**: the packets `k` have been kept, and `r` are still to be looked at. -/
theorem pflushLoop_step {fn : Nat → Bool} {p : Nat} {k r : List Nat} {n : Nat} (hfn : fn p = true)
    (hchain : IsChain s.link (s.pq.q prec).head (k ++ p :: r)) (hnodup : (k ++ p :: r).Nodup) :
    ∃ link head, IsChain link head (k ++ r) ∧ link p = none ∧
    (∀ b, b ∉ k ++ p :: r → link b = s.link b) ∧
      pflushLoop fn prec (n + 1) s k.getLast? (some p) =
        (pflushLoop fn prec n (s.removed prec link { s.pq.q prec with head := head }) k.getLast?
          r.head?).map
          fun (ps, s) => (p :: ps, s) := by
  have hnext := hchain.next_eq
  obtain ⟨hnot, -⟩ := List.nodup_cons.mp (List.perm_middle.nodup_iff.mp hnodup)
  have hother {b c : Nat} {l : List Nat} (hc : c ∈ l) (hb : b ∉ l) : b ≠ c := by
    rintro rfl
    exact hb hc
  have hp : p ∈ k ++ p :: r := by simp
  rcases List.eq_nil_or_concat k with rfl | ⟨k, b, rfl⟩
  · obtain ⟨hhead, hrest⟩ := isChain_cons.mp hchain
    refine ⟨Function.update s.link p none, s.link p, ?_, Function.update_self _ _ _, ?_, ?_⟩
    · exact hrest.congr fun b hb => Function.update_of_ne (Ne.symm (hother hb hnot)) _ _
    · exact fun b hb => Function.update_of_ne (hother hp hb) _ _
    · rw [pflushLoop, if_pos hfn]
      dsimp only [State.removed, setLink]
      rw [if_pos hhead, if_pos hhead]
      dsimp only
      rw [Function.update_self, hnext]
  · rw [List.concat_eq_append] at hchain hnodup hnot hp ⊢
    have hpb : p ≠ b := fun heq => hnot (by rw [heq]; simp)
    have hhead : ¬(s.pq.q prec).head = some p := by
      rw [hchain.head_eq]
      intro hfirst
      cases k with
      | nil => exact hpb (Option.some.inj hfirst).symm
      | cons x k => exact hnot (by rw [← Option.some.inj hfirst]; simp)
    have hlist : k ++ [b] ++ p :: r = k ++ b :: p :: r := by simp
    have hlist' : k ++ [b] ++ r = k ++ b :: r := by simp
    rw [hlist] at hchain hnodup
    refine ⟨Function.update (Function.update s.link b (s.link p)) p none, (s.pq.q prec).head, ?_,
      Function.update_self _ _ _,
      ?_, ?_⟩
    · rw [hlist'] at hnot ⊢
      exact (hchain.skip hnodup).congr fun c hc =>
        Function.update_of_ne (Ne.symm (hother hc hnot)) _ _
    · intro c hc
      rw [Function.update_of_ne (hother hp hc), Function.update_of_ne (hother (by simp) hc)]
    · rw [pflushLoop, if_pos hfn, List.getLast?_concat]
      dsimp only [State.removed, setLink]
      rw [if_neg hhead, if_neg hhead, Option.bind_some]
      dsimp only
      rw [Function.update_of_ne (Ne.symm hpb), Function.update_self, hnext]

/-- What the loop has done to a precedence. -/
structure Flushed (fn : Nat → Bool) (prec : Nat) (k r : List Nat) (s s' : State) : Prop where
  chain : IsChain s'.link (s'.pq.q prec).head (k ++ r.filter fun a => !fn a)
  pq : ∃ head, s'.pq = { s.pq with
    q :=
      Function.update s.pq.q prec
        { s.pq.q prec with head := head, len := (s.pq.q prec).len - (r.filter fn).length }
    len := s.pq.len - (r.filter fn).length }
  same : ∀ b, b ∉ k ++ r → s'.link b = s.link b
  gone : ∀ b ∈ r, fn b = true → s'.link b = none

theorem pflushLoop_spec (fn : Nat → Bool) {r : List Nat} :
    ∀ {n : Nat} {s : State} {k : List Nat}, IsChain s.link (s.pq.q prec).head (k ++ r) →
    (k ++ r).Nodup → r.length ≤ n →
      ∃ s', pflushLoop fn prec n s k.getLast? r.head? = some (r.filter fn, s') ∧
      Flushed fn prec k r s s' := by
  induction r with
  | nil =>
      intro n s k hchain _ _
      refine ⟨s, by cases n <;> rfl, hchain, ⟨(s.pq.q prec).head, ?_⟩, fun _ _ => rfl,
        fun _ hb => nomatch hb⟩
      rw [List.filter_nil, List.length_nil, Nat.sub_zero, Nat.sub_zero, Function.update_eq_self]
  | cons p r ih =>
      intro n s k hchain hnodup hn
      cases n with
      | zero => exact absurd hn (Nat.not_succ_le_zero _)
      | succ n =>
          have hn := Nat.le_of_succ_le_succ hn
          obtain ⟨hnot, hnodup'⟩ := List.nodup_cons.mp (List.perm_middle.nodup_iff.mp hnodup)
          rw [List.head?_cons]
          cases hfn : fn p with
          | true =>
              obtain ⟨link, head, hcut, hnone, hsame, hstep⟩ :=
                pflushLoop_step (n := n) hfn hchain hnodup
              obtain ⟨s₁, hs₁⟩ : ∃ s₁, s₁ = s.removed prec link { s.pq.q prec with head := head } :=
                ⟨_, rfl⟩
              have hlink : s₁.link = link := by rw [hs₁]; rfl
              have hq : s₁.pq.q prec =
                  { s.pq.q prec with head := head, len := (s.pq.q prec).len - 1 } := by
                rw [hs₁]
                exact Function.update_self _ _ _
              have hcut₁ : IsChain s₁.link (s₁.pq.q prec).head (k ++ r) := by rwa [hlink, hq]
              obtain ⟨s', hrun, hflushed⟩ := ih hcut₁ hnodup' hn
              rw [hstep, ← hs₁, hrun, List.filter_cons_of_pos hfn]
              refine ⟨s', rfl, ?_, ?_, ?_, ?_⟩
              · rw [List.filter_cons_of_neg (by simp [hfn])]
                exact hflushed.chain
              · obtain ⟨head', hpq⟩ := hflushed.pq
                refine ⟨head', ?_⟩
                rw [hpq, hq, hs₁, List.filter_cons_of_pos hfn, List.length_cons]
                dsimp only [State.removed]
                rw [Function.update_idem, Nat.sub_sub, Nat.sub_sub, Nat.add_comm 1]
              · intro b hb
                have hout : b ∉ k ++ r := fun hmem => hb (by
                  rcases List.mem_append.mp hmem with hmem | hmem
                  · exact List.mem_append_left _ hmem
                  · exact List.mem_append_right _ (List.mem_cons_of_mem p hmem))
                rw [hflushed.same b hout, hlink, hsame b hb]
              · intro b hb hfnb
                obtain rfl | hmem := List.mem_cons.mp hb
                · rw [hflushed.same b hnot, hlink, hnone]
                · exact hflushed.gone b hmem hfnb
          | false =>
              have hlist : k ++ p :: r = k ++ [p] ++ r := by simp
              have hnext := hchain.next_eq
              rw [hlist] at hchain hnodup
              obtain ⟨s', hrun, hflushed⟩ := ih hchain hnodup hn
              rw [List.getLast?_concat] at hrun
              rw [pflushLoop, if_neg (by rw [hfn]; exact Bool.false_ne_true), hnext, hrun,
                List.filter_cons_of_neg (by rw [hfn]; exact Bool.false_ne_true)]
              refine ⟨s', rfl, ?_, ?_, ?_, ?_⟩
              · rw [List.filter_cons_of_pos (by simp [hfn]), List.append_cons]
                exact hflushed.chain
              · rw [List.filter_cons_of_neg (by rw [hfn]; exact Bool.false_ne_true)]
                exact hflushed.pq
              · rw [hlist]
                exact hflushed.same
              · intro b hb hfnb
                obtain rfl | hmem := List.mem_cons.mp hb
                · rw [hfn] at hfnb
                  cases hfnb
                · exact hflushed.gone b hmem hfnb

/-- The packets that match are taken out of the chain, and the pointer to the last one is put
right. -/
theorem flushed_shows (h : Shows s t) (hprec : prec < t.numPrec) {fn : Nat → Bool} {kept : List Nat}
    (hkept : kept = (t.l prec).filter fun a => !fn a) {link : Nat → Option Nat} {head : Option Nat}
    (hchain : IsChain link head kept) (hsame : ∀ b, b ∉ t.l prec → link b = s.link b)
    (hgone : ∀ b ∈ t.l prec, fn b = true → link b = none) :
    Shows { link := link, pq := { s.pq with
      q := Function.update s.pq.q prec { s.pq.q prec with
        head := head, tail := kept.getLast?
        len := (s.pq.q prec).len - ((t.l prec).filter fn).length }
      len := s.pq.len - ((t.l prec).filter fn).length } } (t.set prec kept) := by
  have hcount : ((t.l prec).filter fn).length + kept.length = (t.l prec).length := by
    rw [hkept]
    exact (List.length_eq_length_filter_add fn).symm
  have hmem {a : Nat} : a ∈ kept ↔ a ∈ t.l prec ∧ fn a = false := by
    rw [hkept, List.mem_filter, Bool.not_eq_true']
  have hsize := t.size_set hprec kept
  have htotal := h.len
  have hlen := (h.queue prec hprec).len
  refine h.replace hprec ⟨hchain, rfl, ?_⟩ rfl ?_ ?_ ?_ ?_ ?_ h.hi_lt ?_
  · dsimp only
    omega
  · rw [hkept]
    exact (h.nodup prec hprec).filter _
  · exact fun a ha => Or.inl (hmem.mp ha).1
  · exact fun a ha _ => hsame a ha
  · intro a ha hout
    refine hgone a ha ?_
    by_contra hne
    exact hout (hmem.mpr ⟨ha, Bool.eq_false_iff.mpr hne⟩)
  · omega
  · intro i hi hne
    by_cases heq : i = prec
    · subst heq
      refine h.hi i hi fun hnil => hne ?_
      rw [t.set_self, hkept, hnil, List.filter_nil]
    · rw [t.set_of_ne kept heq] at hne
      exact h.hi i hi hne

theorem pflush_spec (h : Shows s t) (hprec : prec < t.numPrec) (fn : Nat → Bool) :
    ∃ s', pflush s prec fn = some ((t.l prec).filter fn, s') ∧
      Shows (s'.setTail prec ((t.l prec).filter fun a => !fn a).getLast?)
        (t.set prec ((t.l prec).filter fun a => !fn a)) ∧
      (s'.pq.q prec).tail = if ((t.l prec).filter fun a => !fn a) = [] then none
        else (t.l prec).getLast? := by
  obtain ⟨kept, hkept⟩ : ∃ kept, kept = (t.l prec).filter fun a => !fn a := ⟨_, rfl⟩
  have hq := h.queue prec hprec
  obtain ⟨⟨link, pq⟩, hrun, hchain, ⟨head, hpq⟩, hsame, hgone⟩ :=
    pflushLoop_spec fn (k := []) hq.chain (h.nodup prec hprec) hq.len.ge
  rw [List.nil_append] at hchain hsame
  rw [← hkept] at hchain ⊢
  dsimp only at hpq hchain hsame hgone
  subst hpq
  dsimp only at hchain
  rw [Function.update_self] at hchain
  have hshows := flushed_shows h hprec hkept hchain hsame hgone
  have hhead : head = kept.head? := hchain.head_eq
  have hloop : pflushLoop fn prec (s.pq.q prec).len s none (t.l prec).head? = _ := hrun
  rw [← hq.chain.head_eq] at hloop
  rw [pflush, hloop, Option.map_some]
  simp only [Function.update_self]
  by_cases hnil : kept = []
  · rw [if_pos hnil, if_pos (by rw [hhead, hnil]; rfl)]
    refine ⟨_, rfl, ?_, ?_⟩
    · simpa only [State.setTail, Function.update_self, Function.update_idem] using hshows
    · simp only [State.setTail, Function.update_self]
  · rw [if_neg hnil,
      if_neg (by rw [hhead]; exact fun hnone => hnil (List.head?_eq_none_iff.mp hnone))]
    refine ⟨_, rfl, ?_, ?_⟩
    · simpa only [State.setTail, Function.update_self, Function.update_idem] using hshows
    · dsimp only
      rw [Function.update_self]
      exact hq.tail

theorem State.setTail_eq {tail : Option Nat} (h : (s.pq.q prec).tail = tail) :
    s.setTail prec tail = s := by
  rw [← h, State.setTail, Function.update_eq_self]

theorem pflush_shows (h : Shows s t) (hprec : prec < t.numPrec) :
    ∃ s', pflush s prec (fun _ => true) = some (t.l prec, s') ∧ Shows s' (t.set prec []) := by
  obtain ⟨s', hrun, hshows, htail⟩ := pflush_spec h hprec fun _ => true
  have hall : (t.l prec).filter (fun _ => true) = t.l prec := List.filter_eq_self.mpr fun _ _ => rfl
  have hnone : (t.l prec).filter (fun _ => !true) = [] :=
    List.filter_eq_nil_iff.mpr fun _ _ => Bool.false_ne_true
  rw [hnone, if_pos rfl] at htail
  rw [hnone, List.getLast?_nil, State.setTail_eq htail] at hshows
  exact ⟨s', by rw [hrun, hall], hshows⟩

theorem Shows.congr (h : Shows s t) {l : Nat → List Nat} (hl : ∀ i < t.numPrec, l i = t.l i) :
    Shows s { t with l := l } := by
  refine ⟨h.numPrec, h.max, ?_, h.pmax, ?_, ?_, ?_, h.hi_lt, ?_, ?_⟩
  · intro i hi
    dsimp only
    rw [hl i hi]
    exact h.queue i hi
  · intro i hi
    dsimp only
    rw [hl i hi]
    exact h.nodup i hi
  · intro i hi j hj
    dsimp only
    rw [hl i hi, hl j hj]
    exact h.apart i hi j hj
  · rw [h.len]
    exact Finset.sum_congr rfl fun i hi => congrArg List.length (hl i (Finset.mem_range.mp hi)).symm
  · intro i hi
    dsimp only
    rw [hl i hi]
    exact h.hi i hi
  · intro p hp
    refine h.unlinked p fun i hi => ?_
    rw [← hl i hi]
    exact hp i hi

theorem flushLoop_shows {precs : List Nat} :
    ∀ {s : State} {t : Queues}, Shows s t → (∀ prec ∈ precs, prec < t.numPrec) → precs.Nodup →
      ∃ s', flushLoop (fun _ => true) precs s = some (precs.flatMap t.l, s') ∧
        Shows s' { t with l := fun i => if i ∈ precs then [] else t.l i } := by
  induction precs with
  | nil =>
      intro s t h _ _
      exact ⟨s, rfl, h.congr fun i _ => if_neg List.not_mem_nil⟩
  | cons prec precs ih =>
      intro s t h hprecs hnodup
      obtain ⟨hnot, hnodup⟩ := List.nodup_cons.mp hnodup
      obtain ⟨s₁, hfirst, h₁⟩ := pflush_shows h (hprecs prec List.mem_cons_self)
      obtain ⟨s', hrest, h'⟩ := ih h₁ (fun i hi => hprecs i (List.mem_cons_of_mem prec hi)) hnodup
      have hsame {i : Nat} (hi : i ∈ precs) : (t.set prec []).l i = t.l i := by
        refine t.set_of_ne [] ?_
        rintro rfl
        exact hnot hi
      have hfreed : precs.flatMap (t.set prec []).l = precs.flatMap t.l :=
        List.flatMap_congr fun i hi => hsame hi
      refine ⟨s', ?_, ?_⟩
      · rw [flushLoop, hfirst, Option.bind_eq_bind, Option.bind_some]
        dsimp only
        rw [hrest, hfreed]
        rfl
      · refine h'.congr fun i _ => ?_
        dsimp only
        by_cases hi : i ∈ precs
        · rw [if_pos hi, if_pos (List.mem_cons_of_mem prec hi)]
        · rw [if_neg hi]
          by_cases heq : i = prec
          · rw [heq, if_pos List.mem_cons_self, t.set_self]
          · rw [if_neg (List.not_mem_cons_of_ne_of_not_mem heq hi), t.set_of_ne [] heq]

/-! ## All precedences -/

theorem find?_range_reverse {n i : Nat} {P : Nat → Bool} :
    (List.range n).reverse.find? P = some i ↔ i < n ∧ P i = true ∧ ∀ j, i < j → j < n →
    P j = false := by
  induction n with
  | zero => simp
  | succ n ih =>
      rw [List.range_succ, List.reverse_append, List.reverse_singleton, List.singleton_append]
      cases hn : P n with
      | true =>
          rw [List.find?_cons_of_pos hn, Option.some.injEq]
          constructor
          · rintro rfl
            exact ⟨n.lt_succ_self, hn,
              fun j hj hlt => absurd (Nat.lt_succ_iff.mp hlt) (Nat.not_le_of_lt hj)⟩
          · rintro ⟨hlt, -, hnone⟩
            by_contra hne
            rw [hnone n (by omega) n.lt_succ_self] at hn
            cases hn
      | false =>
          rw [List.find?_cons_of_neg (by rw [hn]; exact Bool.false_ne_true), ih]
          constructor
          · rintro ⟨hlt, hi, hnone⟩
            refine ⟨by omega, hi, fun j hj hlt => ?_⟩
            obtain hlt | rfl := Nat.lt_succ_iff_lt_or_eq.mp hlt
            · exact hnone j hj hlt
            · exact hn
          · rintro ⟨hlt, hi, hnone⟩
            obtain hlt | rfl := Nat.lt_succ_iff_lt_or_eq.mp hlt
            · exact ⟨hlt, hi, fun j hj hlt => hnone j hj (by omega)⟩
            · rw [hn] at hi
              cases hi

theorem Shows.head_eq (h : Shows s t) (hprec : prec < t.numPrec) :
    (s.pq.q prec).head = (t.l prec).head? :=
  (h.queue prec hprec).chain.head_eq

theorem Shows.isNone_head (h : Shows s t) (hprec : prec < t.numPrec) :
    (s.pq.q prec).head.isNone = (t.l prec).isEmpty := by
  rw [h.head_eq hprec]
  cases t.l prec <;> rfl

theorem Shows.isSome_head (h : Shows s t) (hprec : prec < t.numPrec) :
    (s.pq.q prec).head.isSome = !(t.l prec).isEmpty := by
  rw [h.head_eq hprec]
  cases t.l prec <;> rfl

theorem isEmpty_false {l : List Nat} : (!l.isEmpty) = true ↔ l ≠ [] := by
  cases l <;> simp

theorem Shows.eq_nil_of_hi_lt (h : Shows s t) (hprec : prec < t.numPrec)
    (hlt : s.pq.hiPrec < prec) : t.l prec = [] := by
  by_contra hne
  exact Nat.not_le_of_lt hlt (h.hi prec hprec hne)

theorem Shows.empty (h : Shows s t) (hlen : s.pq.len = 0) : ∀ i < t.numPrec, t.l i = [] := by
  intro i hi
  have hsum : t.size = 0 := h.len.symm.trans hlen
  exact List.length_eq_zero_iff.mp (Finset.sum_eq_zero_iff.mp hsum i (Finset.mem_range.mpr hi))

theorem Shows.exists_of_len (h : Shows s t) (hlen : s.pq.len ≠ 0) :
    ∃ i < t.numPrec, t.l i ≠ [] := by
  by_contra hnone
  push Not at hnone
  refine hlen (h.len.trans (Finset.sum_eq_zero fun i hi => ?_))
  rw [hnone i (Finset.mem_range.mp hi), List.length_nil]

theorem Queues.highest_of_empty (hempty : ∀ i < t.numPrec, t.l i = []) (precBmp : Nat → Bool) :
    t.highest precBmp = none := by
  refine List.find?_eq_none.mpr fun i hi => ?_
  rw [hempty i (List.mem_range.mp (List.mem_reverse.mp hi))]
  simp

theorem Queues.lowest_of_empty (hempty : ∀ i < t.numPrec, t.l i = []) : t.lowest = none := by
  refine List.find?_eq_none.mpr fun i hi => ?_
  rw [hempty i (List.mem_range.mp hi)]
  simp

theorem lowerHi_spec (q : Nat → Prec) (n : Nat) :
    lowerHi q n ≤ n ∧ (∀ i, lowerHi q n < i → i ≤ n → (q i).head.isNone = true) ∧
      (lowerHi q n = 0 ∨ (q (lowerHi q n)).head.isNone = false) := by
  induction n with
  | zero => exact ⟨le_refl 0, fun i hi hle => absurd hle (Nat.not_le_of_lt hi), Or.inl rfl⟩
  | succ n ih =>
      rw [lowerHi]
      cases hn : (q (n + 1)).head.isNone with
      | true =>
          obtain ⟨hle, hnone, hstop⟩ := ih
          rw [if_pos rfl]
          refine ⟨Nat.le_succ_of_le hle, fun i hi hi' => ?_, hstop⟩
          obtain hlt | rfl := Nat.lt_succ_iff_lt_or_eq.mp (Nat.lt_succ_of_le hi')
          · exact hnone i hi (Nat.le_of_lt_succ hlt)
          · exact hn
      | false =>
          rw [if_neg Bool.false_ne_true]
          exact ⟨le_refl _, fun i hi hle => absurd hle (Nat.not_le_of_lt hi), Or.inr hn⟩

theorem lowered_shows (h : Shows s t) : Shows s.lowered t := by
  obtain ⟨hle, hnone, -⟩ := lowerHi_spec s.pq.q s.pq.hiPrec
  refine ⟨h.numPrec, h.max, h.queue, h.pmax, h.nodup, h.apart, h.len, hle.trans_lt h.hi_lt, ?_,
    h.unlinked⟩
  intro i hi hne
  by_contra hlt
  have hempty := hnone i (Nat.lt_of_not_le hlt) (h.hi i hi hne)
  rw [h.isNone_head hi] at hempty
  exact hne (List.isEmpty_iff.mp hempty)

/-- With a packet in the queue the hint is lowered to the highest precedence with packets. -/
theorem Shows.highest_eq (h : Shows s t) (hlen : s.pq.len ≠ 0) :
    t.highest (fun _ => true) = some s.lowered.pq.hiPrec := by
  have hlow := lowered_shows h
  obtain ⟨i, hi, hne⟩ := h.exists_of_len hlen
  obtain ⟨-, -, hstop⟩ := lowerHi_spec s.pq.q s.pq.hiPrec
  refine find?_range_reverse.mpr ⟨hlow.hi_lt, ?_, fun j hj hlt => ?_⟩
  · rw [Bool.and_true, isEmpty_false]
    rcases hstop with hzero | hsome
    · have hle := hlow.hi i hi hne
      have hzero : s.lowered.pq.hiPrec = 0 := hzero
      obtain rfl : i = s.lowered.pq.hiPrec := by omega
      exact hne
    · have hhead := h.isNone_head hlow.hi_lt
      intro hnil
      rw [hnil] at hhead
      exact Bool.false_ne_true (hsome.symm.trans hhead)
  · rw [hlow.eq_nil_of_hi_lt hlt hj]
    rfl

theorem lowest_spec (q : Nat → Prec) (n : Nat) :
    ∀ prec, prec ≤ lowest q n prec ∧ lowest q n prec ≤ prec + n ∧
      (∀ i, prec ≤ i → i < lowest q n prec → (q i).head.isSome = false) ∧
      (lowest q n prec = prec + n ∨ (q (lowest q n prec)).head.isSome = true) := by
  induction n with
  | zero => exact fun prec =>
    ⟨le_refl _, le_refl _, fun i hi hlt => absurd hlt (Nat.not_lt_of_le hi), Or.inl rfl⟩
  | succ n ih =>
      intro prec
      rw [lowest]
      cases hprec : (q prec).head.isSome with
      | true =>
          rw [if_pos rfl]
          exact ⟨le_refl _, by omega, fun i hi hlt => absurd hlt (Nat.not_lt_of_le hi),
            Or.inr hprec⟩
      | false =>
          obtain ⟨hle, hle', hnone, hstop⟩ := ih (prec + 1)
          rw [if_neg Bool.false_ne_true]
          refine ⟨by omega, by omega, fun i hi hlt => ?_, ?_⟩
          · obtain rfl | hgt := Nat.eq_or_lt_of_le hi
            · exact hprec
            · exact hnone i hgt hlt
          · exact hstop.imp (fun heq => by omega) id

/-- With a packet in the queue the loop finds the lowest precedence with packets. -/
theorem Shows.lowest_eq (h : Shows s t) (hlen : s.pq.len ≠ 0) :
    t.lowest = some (lowest s.pq.q s.pq.hiPrec 0) := by
  obtain ⟨i, hi, hne⟩ := h.exists_of_len hlen
  obtain ⟨-, hle, hnone, hstop⟩ := lowest_spec s.pq.q s.pq.hiPrec 0
  obtain ⟨r, hr⟩ : ∃ r, r = lowest s.pq.q s.pq.hiPrec 0 := ⟨_, rfl⟩
  rw [← hr] at hle hnone hstop ⊢
  have hhi := h.hi_lt
  have hlt : r < t.numPrec := by omega
  have hbelow {j : Nat} (hj : j < r) : t.l j = [] := by
    have hempty := hnone j (Nat.zero_le j) hj
    rw [h.isSome_head (by omega)] at hempty
    simpa using hempty
  refine List.find?_range_eq_some.mpr ⟨?_, List.mem_range.mpr hlt, fun j hj => ?_⟩
  · rw [isEmpty_false]
    rcases hstop with hlast | hsome
    · have hle' := h.hi i hi hne
      have hge : ¬i < r := fun hlt => hne (hbelow hlt)
      obtain rfl : i = r := by omega
      exact hne
    · rwa [h.isSome_head hlt, isEmpty_false] at hsome
  · rw [hbelow hj]
    rfl

theorem and_shiftLeft (precBmp prec : Nat) :
    precBmp &&& 1 <<< prec = 0 ↔ precBmp.testBit prec = false := by
  rw [Nat.one_shiftLeft, Nat.and_two_pow]
  cases precBmp.testBit prec <;> simp

theorem highestIn_spec (q : Nat → Prec) (precBmp : Nat) (n : Nat) :
    highestIn q precBmp n = (List.range (n + 1)).reverse.find? fun i =>
      (q i).head.isSome && precBmp.testBit i := by
  have hcond (i : Nat) : ((q i).head.isNone = true ∨ precBmp &&& 1 <<< i = 0) ↔
      ((q i).head.isSome && precBmp.testBit i) = false := by
    rw [and_shiftLeft, Bool.and_eq_false_iff]
    cases (q i).head <;> simp
  induction n with
  | zero =>
      rw [highestIn]
      simp only [hcond]
      rw [List.range_one, List.reverse_singleton, List.find?_singleton]
      cases (q 0).head.isSome && precBmp.testBit 0 <;> rfl
  | succ n ih =>
      rw [highestIn, List.range_succ, List.reverse_append, List.reverse_singleton,
        List.singleton_append, ih]
      simp only [hcond]
      rw [List.find?_cons]
      cases (q (n + 1)).head.isSome && precBmp.testBit (n + 1) <;> rfl

theorem Shows.highestIn_eq (h : Shows s t) (precBmp : Nat) :
    highestIn s.pq.q precBmp s.pq.hiPrec = t.highest precBmp.testBit := by
  have hhi := h.hi_lt
  have hsome {i : Nat} (hi : i < t.numPrec) := h.isSome_head hi
  rw [highestIn_spec]
  cases hfind : t.highest precBmp.testBit with
  | none =>
      refine List.find?_eq_none.mpr fun i hi => ?_
      have hi := List.mem_range.mp (List.mem_reverse.mp hi)
      rw [hsome (by omega)]
      exact List.find?_eq_none.mp hfind i (List.mem_reverse.mpr (List.mem_range.mpr (by omega)))
  | some i =>
      obtain ⟨hlt, hi, hnone⟩ := find?_range_reverse.mp hfind
      have hle : i ≤ s.pq.hiPrec := h.hi i hlt (isEmpty_false.mp (Bool.and_elim_left hi))
      refine find?_range_reverse.mpr ⟨by omega, ?_, fun j hj hlt' => ?_⟩
      · rwa [hsome hlt]
      · rw [hsome (by omega)]
        exact hnone j hj (by omega)

theorem mlen_eq (h : Shows s t) (precBmp : Nat) :
    mlen s precBmp = ∑ prec ∈ Finset.range t.numPrec, if precBmp.testBit prec then (t.l prec).length
      else 0 := by
  have hfold (n : Nat) :
      (List.range n).foldl (fun len prec => if precBmp &&& 1 <<< prec ≠
        0 then len + (s.pq.q prec).len else len) 0 =
        ∑ prec ∈ Finset.range n, if precBmp.testBit prec then (s.pq.q prec).len else 0 := by
    induction n with
    | zero => rfl
    | succ n ih =>
        rw [List.range_succ, List.foldl_append, ih, Finset.sum_range_succ, List.foldl_cons,
          List.foldl_nil]
        simp only [ne_eq, and_shiftLeft]
        cases precBmp.testBit n <;> rfl
  rw [mlen, hfold]
  have hsub : Finset.range (s.pq.hiPrec + 1) ⊆ Finset.range t.numPrec :=
    Finset.range_subset_range.mpr h.hi_lt
  refine (Finset.sum_congr rfl fun i hi => ?_).trans (Finset.sum_subset hsub fun i hi hout => ?_)
  · rw [(h.queue i (Finset.mem_range.mp (hsub hi))).len]
  · rw [h.eq_nil_of_hi_lt (Finset.mem_range.mp hi) (by rw [Finset.mem_range] at hout; omega),
      List.length_nil, ite_self]

/-! ## The calls -/

theorem deq_spec (h : Shows s t) :
    (deq s).1 = (t.highest fun _ => true).bind (fun prec => (t.l prec).head?.map fun p =>
      (p, prec)) ∧
      Shows (deq s).2 (t.dropFirst (t.highest fun _ => true)) := by
  by_cases hlen : s.pq.len = 0
  · rw [deq, if_pos hlen, t.highest_of_empty (h.empty hlen)]
    exact ⟨rfl, h⟩
  · have hhighest := h.highest_eq hlen
    have hlow := lowered_shows h
    obtain ⟨hlt, hne, -⟩ := find?_range_reverse.mp hhighest
    rw [Bool.and_true, isEmpty_false] at hne
    rw [deq, if_neg hlen, hhighest]
    dsimp only
    rw [hlow.head_eq hlt, Queues.dropFirst, Option.bind_some]
    cases hl : t.l s.lowered.pq.hiPrec with
    | nil => exact absurd hl hne
    | cons p l => exact ⟨rfl, takeHead_shows hlow hlt hl⟩

theorem first_eq {P : Nat → Bool} {r : Option (Nat × Nat)}
    (hr : r = (t.highest P).bind fun prec => (t.l prec).head?.map fun p => (p, prec)) :
    Answer.packet (r.map Prod.fst) (r.map Prod.snd) = t.first (t.highest P) := by
  rw [hr, Queues.first]
  cases hhighest : t.highest P with
  | none => rfl
  | some prec =>
      obtain ⟨-, hne, -⟩ := find?_range_reverse.mp hhighest
      cases hl : t.l prec with
      | nil =>
          rw [hl] at hne
          cases hne
      | cons p l =>
          dsimp only [Option.bind_some]
          rw [hl]
          rfl

theorem mpeek_spec (h : Shows s t) (precBmp : Nat) :
    (mpeek s precBmp).1 = (t.highest precBmp.testBit).bind
      (fun prec => (t.l prec).head?.map fun p => (p, prec)) ∧
      Shows (mpeek s precBmp).2 t := by
  by_cases hlen : s.pq.len = 0
  · rw [mpeek, if_pos hlen, t.highest_of_empty (h.empty hlen)]
    exact ⟨rfl, h⟩
  · have hlow := lowered_shows h
    rw [mpeek, if_neg hlen]
    refine ⟨?_, hlow⟩
    dsimp only
    rw [hlow.highestIn_eq]
    cases hhighest : t.highest precBmp.testBit with
    | none => rfl
    | some prec =>
        obtain ⟨hlt, -, -⟩ := find?_range_reverse.mp hhighest
        rw [Option.bind_eq_bind, Option.bind_some, Option.bind_some, hlow.head_eq hlt]
        cases (t.l prec).head? <;> rfl

theorem mdeq_spec (h : Shows s t) (precBmp : Nat) :
    (mdeq s precBmp).1 = (t.highest precBmp.testBit).bind (fun prec => (t.l prec).head?.map fun p =>
      (p, prec)) ∧
      Shows (mdeq s precBmp).2 (t.dropFirst (t.highest precBmp.testBit)) := by
  obtain ⟨hpeek, hshows⟩ := mpeek_spec h precBmp
  rw [mdeq, ← hpeek]
  cases hr : mpeek s precBmp with
  | mk r s' =>
      rw [hr] at hpeek hshows
      cases hhighest : t.highest precBmp.testBit with
      | none =>
          rw [hhighest] at hpeek
          dsimp only [Option.bind_none] at hpeek
          subst hpeek
          exact ⟨rfl, hshows⟩
      | some prec =>
          obtain ⟨hlt, hne, -⟩ := find?_range_reverse.mp hhighest
          rw [hhighest, Option.bind_some] at hpeek
          cases hl : t.l prec with
          | nil =>
              rw [hl] at hne
              cases hne
          | cons p l =>
              rw [hl] at hpeek
              dsimp only [List.head?_cons, Option.map_some] at hpeek
              subst hpeek
              rw [Queues.dropFirst, hl]
              exact ⟨rfl, takeHead_shows hshows hlt hl⟩

theorem pdeq_spec (h : Shows s t) (hprec : prec < t.numPrec) :
    (pdeq s prec).1 = (t.l prec).head? ∧ Shows (pdeq s prec).2 (t.set prec (t.l prec).tail) := by
  rw [pdeq, h.head_eq hprec]
  cases hl : t.l prec with
  | nil =>
      have hsame := t.set_same prec
      rw [hl] at hsame
      rw [List.tail_nil, hsame]
      exact ⟨rfl, h⟩
  | cons p l => exact ⟨rfl, takeHead_shows h hprec hl⟩

theorem pdeqTail_spec (h : Shows s t) (hprec : prec < t.numPrec) :
    ∃ s', pdeqTail s prec = some ((t.l prec).getLast?, s') ∧
    Shows s' (t.set prec (t.l prec).dropLast) := by
  rw [pdeqTail, h.head_eq hprec]
  rcases List.eq_nil_or_concat (t.l prec) with hl | ⟨l, a, hl⟩
  · refine ⟨s, ?_, ?_⟩
    · rw [hl]
      rfl
    · rw [hl, List.dropLast_nil, ← hl, t.set_same]
      exact h
  · rw [List.concat_eq_append] at hl
    obtain ⟨s', htake, hshows⟩ := takeTail_shows h hprec hl
    have hhead : ¬(t.l prec).head? = none := by
      rw [hl]
      simp
    rw [if_neg hhead, htake, hl, List.getLast?_concat, List.dropLast_concat]
    exact ⟨s', rfl, hshows⟩

theorem deqTail_spec (h : Shows s t) :
    ∃ s', deqTail s =
      some (t.lowest.bind (fun prec => (t.l prec).getLast?.map fun p => (p, prec)), s') ∧
      Shows s' (t.dropLast t.lowest) := by
  by_cases hlen : s.pq.len = 0
  · rw [deqTail, if_pos hlen, t.lowest_of_empty (h.empty hlen)]
    exact ⟨s, rfl, h⟩
  · have hlowest := h.lowest_eq hlen
    obtain ⟨hne, hmem, -⟩ := List.find?_range_eq_some.mp hlowest
    have hprec := List.mem_range.mp hmem
    rw [isEmpty_false] at hne
    rw [deqTail, if_neg hlen, hlowest]
    dsimp only
    generalize lowest s.pq.q s.pq.hiPrec 0 = prec at hprec hne ⊢
    rcases List.eq_nil_or_concat (t.l prec) with hl | ⟨l, a, hl⟩
    · exact absurd hl hne
    · rw [List.concat_eq_append] at hl
      obtain ⟨s', htake, hshows⟩ := takeTail_shows h hprec hl
      have hhead : ¬(s.pq.q prec).head = none := by
        rw [h.head_eq hprec, hl]
        simp
      have hout : ∀ i < (t.set prec l).numPrec, a ∉ (t.set prec l).l i := by
        intro i hi
        by_cases heq : i = prec
        · have hnodup := h.nodup prec hprec
          rw [hl] at hnodup
          rw [heq, t.set_self]
          exact (List.nodup_cons.mp ((List.perm_append_singleton a l).nodup_iff.mp hnodup)).1
        · rw [t.set_of_ne l heq]
          exact h.apart prec hprec i hi (Ne.symm heq) a (by rw [hl]; simp)
      have hclear := hshows.clear hout
      rw [if_neg hhead, htake, Option.map_some, Option.bind_some, Queues.dropLast, hl,
        List.getLast?_concat, List.dropLast_concat]
      dsimp only
      rw [hclear]
      exact ⟨s', rfl, hshows⟩

theorem last_eq :
    Answer.packet ((t.lowest.bind fun prec => (t.l prec).getLast?.map fun p =>
      (p, prec)).map Prod.fst)
        ((t.lowest.bind fun prec => (t.l prec).getLast?.map fun p => (p, prec)).map Prod.snd) =
          t.last t.lowest := by
  rw [Queues.last]
  cases hlowest : t.lowest with
  | none => rfl
  | some prec =>
      obtain ⟨hne, -, -⟩ := List.find?_range_eq_some.mp hlowest
      rw [isEmpty_false] at hne
      rcases List.eq_nil_or_concat (t.l prec) with hl | ⟨l, a, hl⟩
      · exact absurd hl hne
      · rw [List.concat_eq_append] at hl
        rw [Option.bind_some, Option.bind_some, hl, List.getLast?_concat]
        rfl

theorem peek_spec (h : Shows s t) :
    Answer.packet (peek s).1.1 (peek s).1.2 = t.first (t.highest fun _ => true) ∧
    Shows (peek s).2 t := by
  by_cases hlen : s.pq.len = 0
  · rw [peek, if_pos hlen, t.highest_of_empty (h.empty hlen)]
    exact ⟨rfl, h⟩
  · have hlow := lowered_shows h
    rw [peek, if_neg hlen, h.highest_eq hlen, Queues.first, Option.bind_some]
    dsimp only
    rw [hlow.head_eq hlow.hi_lt]
    exact ⟨rfl, hlow⟩

theorem peekTail_spec (h : Shows s t) :
    Answer.packet (peekTail s).1 (peekTail s).2 = t.last t.lowest := by
  by_cases hlen : s.pq.len = 0
  · rw [peekTail, if_pos hlen, t.lowest_of_empty (h.empty hlen)]
    rfl
  · have hlowest := h.lowest_eq hlen
    obtain ⟨-, hmem, -⟩ := List.find?_range_eq_some.mp hlowest
    rw [peekTail, if_neg hlen, hlowest, Queues.last, Option.bind_some]
    dsimp only
    rw [(h.queue _ (List.mem_range.mp hmem)).tail]

theorem flush_shows (h : Shows s t) :
    ∃ s', flush s (fun _ => true) = some ((List.range t.numPrec).flatMap t.l, s') ∧
    Shows s' { t with l := fun _ => [] } := by
  by_cases hlen : s.pq.len = 0
  · have hempty := h.empty hlen
    refine ⟨s, ?_, h.congr fun i hi => (hempty i hi).symm⟩
    rw [flush, if_pos hlen, List.flatMap_eq_nil_iff.mpr fun i hi => hempty i (List.mem_range.mp hi)]
  · obtain ⟨s', hrun, hshows⟩ :=
      flushLoop_shows h (fun i hi => List.mem_range.mp hi) (List.nodup_range (n := t.numPrec))
    refine ⟨s', ?_, hshows.congr fun i hi => (if_pos (List.mem_range.mpr hi)).symm⟩
    rw [flush, if_neg hlen, h.numPrec, hrun]

theorem setMaxPlen_shows (h : Shows s t) (hprec : prec < t.numPrec) (maxLen : Nat) :
    Shows (setMaxPlen s prec maxLen)
      { t with pmax := Function.update t.pmax prec (maxLen % 2 ^ 16) } := by
  rw [setMaxPlen, if_pos (by rw [h.numPrec]; exact hprec)]
  refine ⟨h.numPrec, h.max, ?_, ?_, h.nodup, h.apart, h.len, h.hi_lt, h.hi, h.unlinked⟩
  · intro i hi
    dsimp only
    by_cases heq : i = prec
    · subst heq
      rw [Function.update_self]
      exact ⟨(h.queue i hi).chain, (h.queue i hi).tail, (h.queue i hi).len⟩
    · rw [Function.update_of_ne heq]
      exact h.queue i hi
  · intro i hi
    dsimp only
    by_cases heq : i = prec
    · rw [heq, Function.update_self, Function.update_self]
    · rw [Function.update_of_ne heq, Function.update_of_ne heq]
      exact h.pmax i hi

theorem orStuck_eq {α : Type} {answer : α → Answer} {r : Option (α × State)} {a : α} {s' : State}
    (hr : r = some (a, s')) :
    orStuck s answer r = (answer a, s') := by
  rw [hr, orStuck]

/-- **Each call is answered alike.** -/
theorem call_spec {e : Call} (h : Shows s t) (hallowed : Allowed t e) :
    (s.call e).1 = (t.call e).1 ∧ Shows (s.call e).2 (t.call e).2 := by
  cases e with
  | penq prec p => exact ⟨rfl, penq_shows h hallowed⟩
  | penqHead prec p => exact ⟨rfl, penqHead_shows h hallowed⟩
  | pdeq prec =>
      obtain ⟨hanswer, hshows⟩ := pdeq_spec h hallowed
      exact ⟨congrArg (Answer.packet · none) hanswer, hshows⟩
  | pdeqPrev prec prev =>
      obtain ⟨hanswer, hshows⟩ := pdeqPrev_shows h hallowed.1 hallowed.2
      exact ⟨congrArg (Answer.packet · none) hanswer, hshows⟩
  | pdeqTail prec =>
      obtain ⟨s', hrun, hshows⟩ := pdeqTail_spec h hallowed
      rw [State.call, orStuck_eq hrun]
      exact ⟨rfl, hshows⟩
  | pdel pktbuf prec =>
      obtain ⟨s', hrun, hshows⟩ := pdel_shows h hallowed pktbuf
      rw [State.call, orStuck_eq hrun]
      exact ⟨rfl, hshows⟩
  | pflush prec =>
      obtain ⟨s', hrun, hshows⟩ := pflush_shows h hallowed
      rw [State.call, orStuck_eq hrun]
      exact ⟨rfl, hshows⟩
  | flush =>
      obtain ⟨s', hrun, hshows⟩ := flush_shows h
      rw [State.call, orStuck_eq hrun]
      exact ⟨rfl, hshows⟩
  | setMaxPlen prec maxLen =>
      have hprec : prec < t.numPrec := hallowed
      rw [Queues.call, if_pos hprec]
      exact ⟨rfl, setMaxPlen_shows h hallowed maxLen⟩
  | deq => exact ⟨first_eq (deq_spec h).1, (deq_spec h).2⟩
  | deqTail =>
      obtain ⟨s', hrun, hshows⟩ := deqTail_spec h
      rw [State.call, orStuck_eq hrun]
      exact ⟨last_eq, hshows⟩
  | peek => exact peek_spec h
  | peekTail => exact ⟨peekTail_spec h, h⟩
  | mlen precBmp => exact ⟨congrArg Answer.count (mlen_eq h precBmp), h⟩
  | mpeek precBmp => exact ⟨first_eq (mpeek_spec h precBmp).1, (mpeek_spec h precBmp).2⟩
  | mdeq precBmp => exact ⟨first_eq (mdeq_spec h precBmp).1, (mdeq_spec h precBmp).2⟩

end

/-- The packets have no links, and the queue is new. -/
def newState (numPrec maxLen : Nat) : State where
  link := fun _ => none
  pq := init numPrec maxLen

def newQueues (numPrec maxLen : Nat) : Queues where
  numPrec := numPrec
  max := maxLen % 2 ^ 16
  pmax := fun _ => maxLen % 2 ^ 16
  l := fun _ => []

theorem newState_shows {numPrec : Nat} (hprec : 0 < numPrec) (maxLen : Nat) :
    Shows (newState numPrec maxLen) (newQueues numPrec maxLen) where
  numPrec := rfl
  max := rfl
  queue := fun _ _ => ⟨isChain_nil.mpr rfl, rfl, rfl⟩
  pmax := fun _ _ => rfl
  nodup := fun _ _ => List.nodup_nil
  apart := fun _ _ _ _ _ _ hp => nomatch hp
  len := (Finset.sum_eq_zero fun _ _ => rfl).symm
  hi_lt := hprec
  hi := fun _ _ hne => absurd rfl hne
  unlinked := fun _ _ => rfl

/-- **The packet queue is a list of packets for each precedence.** No calls that are allowed tell
the two apart, and none of them gets stuck. -/
theorem pktq_refines {numPrec maxLen : Nat} (hprec : 0 < numPrec ∧ numPrec ≤ 16) {es : List Call}
    (hallowed : Along (fun t e => (Queues.call t e).2) Allowed (newQueues numPrec maxLen) es) :
    answers State.call (newState numPrec maxLen) es =
      answers Queues.call (newQueues numPrec maxLen) es ∧
      Shows (run (fun s e => (s.call e).2) (newState numPrec maxLen) es)
        (run (fun t e => (t.call e).2) (newQueues numPrec maxLen) es) := by
  have hcall : ∀ s t e, Shows s t → Allowed t e →
      (s.call e).1 = (t.call e).1 ∧ Shows (s.call e).2 (t.call e).2 :=
    fun _ _ _ h hallowed => call_spec h hallowed
  have hnew := newState_shows hprec.1 maxLen
  exact ⟨answers_eq hcall hnew hallowed, related_run hcall hnew hallowed⟩

theorem pktq_refines_example :
    answers State.call (newState 2 4) [.penq 0 1, .penq 1 2, .penqHead 1 3, .deq, .pdeqTail 1,
      .mlen 3, .flush] =
        answers Queues.call (newQueues 2 4) [.penq 0 1, .penq 1 2, .penqHead 1 3, .deq, .pdeqTail 1,
          .mlen 3, .flush] ∧
      Shows
        (run (fun s e => (State.call s e).2) (newState 2 4)
          [.penq 0 1, .penq 1 2, .penqHead 1 3, .deq, .pdeqTail 1, .mlen 3, .flush])
        (run (fun t e => (Queues.call t e).2) (newQueues 2 4)
          [.penq 0 1, .penq 1 2, .penqHead 1 3, .deq, .pdeqTail 1, .mlen 3, .flush]) :=
  pktq_refines (by decide) (by decide)

/-- All packets are freed, or the last one is not. -/
def LastStays (fn : Nat → Bool) (l : List Nat) : Prop :=
  (∀ a ∈ l, fn a = true) ∨ ∀ a ∈ l.getLast?, fn a = false

theorem getLast?_filter (fn : Nat → Bool) (l : List Nat) (hlast : ∀ a ∈ l.getLast?, fn a = false) :
    (l.filter fun a => !fn a).getLast? = l.getLast? := by
  rcases List.eq_nil_or_concat l with rfl | ⟨l, a, rfl⟩
  · rfl
  · rw [List.concat_eq_append, List.getLast?_concat] at hlast ⊢
    have hkeep : [a].filter (fun a => !fn a) = [a] :=
      List.filter_cons_of_pos (by rw [hlast a rfl]; rfl)
    rw [List.filter_append, hkeep, List.getLast?_concat]

/-- A packet that is put in where the pointer to the last one shows a packet outside of
the chain. -/
theorem penq_behind {l : List Nat} {last : Nat} (hchain : IsChain s.link (s.pq.q prec).head l)
    (hne : l ≠ []) (htail : (s.pq.q prec).tail = some last) (hout : last ∉ l) (p : Nat) :
    (penq s prec p).link last = some p ∧
      IsChain (penq s prec p).link ((penq s prec p).pq.q prec).head l := by
  have hhead : (s.pq.q prec).head.isSome = true := by
    rw [hchain.head_eq]
    cases l with
    | nil => exact absurd rfl hne
    | cons a l => rfl
  rw [penq, if_pos hhead, htail, s.head_added]
  refine ⟨Function.update_self .., hchain.congr fun b hb => Function.update_of_ne ?_ _ _⟩
  rintro rfl
  exact hout hb

/-- **Flushing with a filter** frees the packets that match and keeps the others in their order.
Where the last packet is freed and another one kept, the pointer to the last packet is not right
afterwards: the next packet is put behind the freed one and is not in the chain. -/
theorem pflush_filter {s : State} {t : Queues} (h : Shows s t) {prec : Nat}
    (hprec : prec < t.numPrec) (fn : Nat → Bool) :
    ∃ s', pflush s prec fn = some ((t.l prec).filter fn, s') ∧
      Shows (s'.setTail prec ((t.l prec).filter fun a => !fn a).getLast?)
        (t.set prec ((t.l prec).filter fun a => !fn a)) ∧
      (Shows s' (t.set prec ((t.l prec).filter fun a => !fn a)) ↔ LastStays fn (t.l prec)) ∧
      (¬LastStays fn (t.l prec) → ∃ last, (t.l prec).getLast? = some last ∧ fn last = true ∧ ∀ p,
        (penq s' prec p).link last = some p ∧
          IsChain (penq s' prec p).link ((penq s' prec p).pq.q prec).head
            ((t.l prec).filter fun a => !fn a)) := by
  obtain ⟨s', hrun, hshows, htail⟩ := pflush_spec h hprec fn
  have hlast? := getLast?_filter fn (t.l prec)
  obtain ⟨kept, hkept⟩ : ∃ kept, kept = (t.l prec).filter fun a => !fn a := ⟨_, rfl⟩
  rw [← hkept] at hshows htail hlast? ⊢
  have hnil : kept = [] ↔ ∀ a ∈ t.l prec, fn a = true := by
    rw [hkept, List.filter_eq_nil_iff]
    simp
  have hmem {a : Nat} (ha : a ∈ kept) : fn a = false := by
    rw [hkept] at ha
    simpa using (List.mem_filter.mp ha).2
  have hchain : IsChain s'.link (s'.pq.q prec).head kept := by
    have hset := (hshows.queue prec hprec).chain
    rw [t.set_self] at hset
    simpa only [State.setTail, Function.update_self] using hset
  refine ⟨s', hrun, hshows, ⟨fun hright => ?_, fun hstays => ?_⟩, fun hgoes => ?_⟩
  · by_cases hempty : kept = []
    · exact Or.inl (hnil.mp hempty)
    · have hset := (hright.queue prec hprec).tail
      rw [if_neg hempty] at htail
      rw [t.set_self, htail] at hset
      refine Or.inr fun a ha => hmem ?_
      rw [hset] at ha
      exact List.mem_of_getLast? ha
  · rw [State.setTail_eq] at hshows
    · exact hshows
    · rw [htail]
      by_cases hempty : kept = []
      · rw [if_pos hempty, hempty]
        rfl
      · rw [if_neg hempty]
        exact (hlast? (hstays.resolve_left fun hall => hempty (hnil.mpr hall))).symm
  · -- the packet that the pointer shows has been freed
    have hempty : kept ≠ [] := fun hempty => hgoes (Or.inl (hnil.mp hempty))
    obtain ⟨last, hlast, hfreed⟩ : ∃ last, (t.l prec).getLast? = some last ∧ fn last = true := by
      have hstays := not_or.mp hgoes
      simpa using hstays.2
    rw [if_neg hempty, hlast] at htail
    have hout : last ∉ kept := fun hin => absurd hfreed (by rw [hmem hin]; exact Bool.false_ne_true)
    exact ⟨last, hlast, hfreed, penq_behind hchain hempty htail hout⟩

theorem pflush_filter_example :
    ∃ s', pflush (penq (penq (newState 1 4) 0 1) 0 2) 0 (fun a => a == 2) = some ([2], s') ∧
      ∀ p, (penq s' 0 p).link 2 = some p ∧
      IsChain (penq s' 0 p).link ((penq s' 0 p).pq.q 0).head [1] := by
  have hfirst : (newQueues 1 4).canPut 0 1 := by decide
  have hsecond : ((newQueues 1 4).set 0 [1]).canPut 0 2 := by decide
  have hshows := penq_shows (penq_shows (newState_shows Nat.one_pos 4) hfirst) hsecond
  have hprec : 0 < 1 := Nat.one_pos
  obtain ⟨s', hrun, -, -, hlost⟩ := pflush_filter hshows hprec fun a => a == 2
  have hgoes : ¬LastStays (fun a => a == 2) [1, 2] := by
    rintro (hall | hlast)
    · exact absurd (hall 1 List.mem_cons_self) (by decide)
    · exact absurd (hlast 2 rfl) (by decide)
  obtain ⟨last, hlast, -, hbehind⟩ := hlost hgoes
  cases Option.some.inj hlast
  exact ⟨s', hrun, hbehind⟩

end BroadcomWl.Shared.PktQueue
