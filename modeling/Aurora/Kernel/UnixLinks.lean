import Aurora.Kernel.UnixSock
import Mathlib.Data.List.Perm.Subperm

/-!
# The links between Unix sockets

What the operations keep as long as no socket that is bound is bound again and no operation
touches a freed socket: the list of bound sockets ends and holds exactly those that were bound
and not closed since, no two pointers of accept queues lead to the same socket, and peers point
to each other.

## Main definitions

* `Linked`: the invariant.
* `Closed`: what `unix_close` does.
-/

namespace Aurora.Unix

open Lib Function List Option Mem

variable {m m' : Mem} {x y : ℕ}

/-! ## Cells -/

namespace Mem

lemma get_of_live (h : m.live x = true) : m.get x = some (m.heap x) := by
  rw [get, if_pos h]

lemma get_of_not_live (h : m.live x = false) : m.get x = none := by
  rw [get, h]
  rfl

section

variable (m : Mem) (x : ℕ) (sk : UnixSock)

@[simp] lemma set_live : (m.set x sk).live = m.live := rfl

@[simp] lemma set_fresh : (m.set x sk).fresh = m.fresh := rfl

@[simp] lemma set_boundList : (m.set x sk).boundList = m.boundList := rfl

@[simp] lemma set_self : (m.set x sk).heap x = sk :=
  update_self ..

end

lemma set_other (m : Mem) (sk : UnixSock) (h : y ≠ x) : (m.set x sk).heap y = m.heap y :=
  update_of_ne h ..

/-- A field that the new contents of the cell agree on. -/
lemma set_field {β : Type} {sk : UnixSock} (f : UnixSock → β) (h : f sk = f (m.heap x)) (y : ℕ) :
    f ((m.set x sk).heap y) = f (m.heap y) := by
  by_cases hy : y = x
  · rw [hy, set_self, h]
  · rw [set_other _ _ hy]

def next (m : Mem) (x : ℕ) : Option ℕ := (m.heap x).next

lemma next_set (m : Mem) (x : ℕ) (sk : UnixSock) : (m.set x sk).next = update m.next x sk.next := by
  funext y
  by_cases hy : y = x
  · simp [hy, next, set_self]
  · simp [hy, next, set_other _ _ hy, next]

/-- The first socket `y` of the accept queue of `x` leaves it. -/
def dequeue (m : Mem) (x y : ℕ) (n : ℤ) : Mem :=
  let m := m.set x { m.heap x with acceptQueue := m.next y, acceptQueueLen := n }
  m.set y { m.heap y with next := none }

end Mem

lemma unixSocketFork_eq (h : m.live x = true) : unixSocketFork m x =
    some (m.set x { m.heap x with refcount := (m.heap x).refcount + 1 }) := by
  rw [unixSocketFork, get_of_live h]
  rfl

/-! ## The list of bound sockets -/

variable {p : Option ℕ} {l : List ℕ} {fuel : ℕ}

/-- A search through a list that ends. -/
lemma findFrom_eq {path : String} (h : IsList m.next p l) (hlive : ∀ x ∈ l, m.live x = true)
    (hfuel : l.length < fuel) :
    findFrom m path fuel p =
      some (l.find? fun x => (m.heap x).path ≠ "" ∧ (m.heap x).path = path) := by
  induction l generalizing p fuel with
  | nil =>
    obtain ⟨fuel, rfl⟩ := Nat.exists_eq_add_of_lt hfuel
    rw [isList_nil.1 h]
    rfl
  | cons a l ih =>
    rw [length_cons] at hfuel
    obtain ⟨fuel, rfl⟩ := Nat.exists_eq_add_of_lt hfuel
    obtain ⟨rfl, hrest⟩ := h
    rw [findFrom, get_of_live (hlive a mem_cons_self), bind_eq_bind, bind_some, find?_cons]
    by_cases hpath : (m.heap a).path ≠ "" ∧ (m.heap a).path = path
    · rw [if_pos hpath, decide_eq_true hpath]
    · rw [if_neg hpath, decide_eq_false hpath]
      exact ih hrest (fun x hx => hlive x (mem_cons_of_mem a hx)) (by omega)

/-- The cell that points to the one to be taken out gets its successor. -/
def Mem.redirect (m : Mem) (prev : Option ℕ) (v : Option ℕ) : Mem :=
  match prev with
  | none => { m with boundList := v }
  | some b => m.set b { m.heap b with next := v }

lemma unlinkBound_of_not_mem {prev : Option ℕ} (h : IsList m.next p l)
    (hlive : ∀ x ∈ l, m.live x = true) (hx : x ∉ l) (hfuel : l.length < fuel) :
    unlinkBound x fuel m prev p = some m := by
  induction l generalizing prev p fuel with
  | nil =>
    obtain ⟨fuel, rfl⟩ := Nat.exists_eq_add_of_lt hfuel
    rw [isList_nil.1 h]
    rfl
  | cons a l ih =>
    rw [length_cons] at hfuel
    obtain ⟨fuel, rfl⟩ := Nat.exists_eq_add_of_lt hfuel
    obtain ⟨rfl, hrest⟩ := h
    rw [mem_cons, not_or] at hx
    simp only [unlinkBound, if_neg (Ne.symm hx.1), get_of_live (hlive a mem_cons_self),
      bind_eq_bind, bind_some]
    exact ih hrest (fun y hy => hlive y (mem_cons_of_mem a hy)) hx.2 (by omega)

lemma unlinkBound_of_mem {prev : Option ℕ} {l1 l2 : List ℕ} (h : IsList m.next p (l1 ++ x :: l2))
    (hlive : ∀ y ∈ l1, m.live y = true) (hfuel : l1.length < fuel) :
    unlinkBound x fuel m prev p = some (m.redirect (l1.getLast?.or prev) (m.next x)) := by
  induction l1 generalizing prev p fuel with
  | nil =>
    obtain ⟨fuel, rfl⟩ := Nat.exists_eq_add_of_lt hfuel
    obtain ⟨rfl, -⟩ := h
    cases prev <;> simp only [unlinkBound, if_pos] <;> rfl
  | cons a l1 ih =>
    rw [length_cons] at hfuel
    obtain ⟨fuel, rfl⟩ := Nat.exists_eq_add_of_lt hfuel
    have hx : x ≠ a := ne_of_not_mem_cons h.not_mem_left
    obtain ⟨rfl, hrest⟩ := h
    simp only [unlinkBound, if_neg hx.symm, get_of_live (hlive a mem_cons_self),
      bind_eq_bind, bind_some]
    have hlast : ((a :: l1).getLast?).or prev = l1.getLast?.or (some a) := by
      cases l1 with
      | nil => rfl
      | cons b l1 => rw [getLast?_cons_cons, getLast?_cons]; rfl
    rw [hlast]
    exact ih hrest (fun y hy => hlive y (mem_cons_of_mem a hy)) (by omega)

/-- **The loop of `unix_close`** takes the socket out of the list and changes nothing else. -/
lemma unlinkBound_spec (h : IsList m.next m.boundList l) (hlive : ∀ y ∈ l, m.live y = true)
    (hfuel : l.length < fuel) (x : ℕ) :
    ∃ m', unlinkBound x fuel m none m.boundList = some m' ∧
      IsList m'.next m'.boundList (l.erase x) ∧ m'.live = m.live ∧ m'.fresh = m.fresh ∧
      (∀ y, m'.heap y = { m.heap y with next := m'.next y }) ∧
      ∀ y, y ∉ l → m'.next y = m.next y := by
  by_cases hx : x ∈ l
  · obtain ⟨l1, l2, rfl⟩ := append_of_mem hx
    have herase : (l1 ++ x :: l2).erase x = l1 ++ l2 := by
      rw [erase_append_right _ h.not_mem_left, erase_cons_head]
    have hfuel1 : l1.length < fuel := by
      rw [length_append] at hfuel
      omega
    rw [unlinkBound_of_mem h (fun y hy => hlive y (mem_append_left _ hy)) hfuel1, herase, or_none]
    refine ⟨_, rfl, ?_⟩
    obtain rfl | ⟨l1, b, rfl⟩ := l1.eq_nil_or_concat'
    · refine ⟨?_, rfl, rfl, fun _ => rfl, fun _ _ => rfl⟩
      rw [nil_append]
      exact h.2
    · rw [getLast?_concat, redirect]
      rw [append_assoc, singleton_append] at h
      have hnext := m.next_set b { m.heap b with next := m.next x }
      refine ⟨?_, rfl, rfl, fun y => ?_, fun y hy => ?_⟩
      · rw [hnext, append_assoc, singleton_append]
        exact h.skip
      · rw [hnext]
        by_cases hy : y = b
        · simp [hy, set_self]
        · rw [update_of_ne hy, set_other _ _ hy]
          rfl
      · rw [hnext, update_of_ne]
        rintro rfl
        exact hy (by simp)
  · refine ⟨m, unlinkBound_of_not_mem h hlive hx hfuel, ?_, rfl, rfl, fun _ => rfl, fun _ _ => rfl⟩
    rwa [erase_of_not_mem hx]

/-! ## Closing a socket -/

/-- A socket without a peer loses a reference; it is freed with the last one. -/
lemma unixSockPut_spec (fuel : ℕ) (hlive : m.live x = true) (hpeer : (m.heap x).peer = none) :
    ∃ m', unixSockPut (fuel + 1) m x = some m' ∧ m'.fresh = m.fresh ∧ m'.boundList = m.boundList ∧
      (∀ y, m'.live y = (m.live y && !(y = x && (m.heap y).refcount = 1))) ∧
      (∀ y, y ≠ x → m'.heap y = m.heap y) ∧
      m'.heap x = { m.heap x with refcount := (m.heap x).refcount - 1 } := by
  simp only [unixSockPut, get_of_live hlive, hpeer, bind_eq_bind, bind_some]
  by_cases href : (m.heap x).refcount = 1
  · rw [if_pos (by omega)]
    refine ⟨_, rfl, rfl, rfl, fun y => ?_, fun y hy => m.set_other _ hy, ?_⟩
    · show update m.live x false y = _
      by_cases hy : y = x
      · rw [hy, update_self, href]
        simp
      · rw [update_of_ne hy]
        simp [hy]
    · show (m.set x _).heap x = _
      rw [set_self]
  · rw [if_neg (by omega)]
    refine ⟨_, rfl, rfl, rfl, fun y => ?_, fun y hy => m.set_other _ hy, ?_⟩
    · rw [set_live]
      by_cases hy : y = x
      · simp [hy, href]
      · simp [hy]
    · rw [set_self]

/-- What `unix_close` does to the links, the references, the live sockets and the data. -/
structure Closed (x : ℕ) (l : List ℕ) (m m' : Mem) : Prop where
  fresh : m'.fresh = m.fresh
  list : IsList m'.next m'.boundList (l.erase x)
  next : ∀ y, y ∉ l → m'.next y = m.next y
  live : ∀ y, m'.live y =
    (m.live y && !((y = x ∨ (m.heap x).peer = some y) && (m.heap y).refcount = 1))
  refcount : ∀ y, (m'.heap y).refcount =
    (m.heap y).refcount - if y = x ∨ (m.heap x).peer = some y then 1 else 0
  peer : ∀ y, (m'.heap y).peer =
    if y = x ∨ (m.heap x).peer = some y then none else (m.heap y).peer
  state : ∀ y, (m'.heap y).state = if y = x then .closed else (m.heap y).state
  same : ∀ y, (m'.heap y).path = (m.heap y).path ∧ (m'.heap y).type = (m.heap y).type ∧
    (m'.heap y).acceptQueue = (m.heap y).acceptQueue
  data : ∀ y, (m'.heap y).buf = (m.heap y).buf ∧ (m'.heap y).head = (m.heap y).head ∧
    (m'.heap y).tail = (m.heap y).tail ∧ (m'.heap y).count = (m.heap y).count ∧
    (m'.heap y).bufSize = (m.heap y).bufSize

section

variable (hlive : m.live x = true) (hpeer : ∀ p, (m.heap x).peer = some p → p ≠ x ∧ m.live p = true)

include hlive hpeer

/-- The first part closes the socket and takes it and its peer apart. -/
lemma hangUp_spec : ∃ m', hangUp m x = some m' ∧ m'.live = m.live ∧ m'.fresh = m.fresh ∧
      m'.boundList = m.boundList ∧ ∀ y, m'.heap y = if y = x then
          { m.heap x with readOpen := false, writeOpen := false, peer := none, state := .closed }
        else if (m.heap x).peer = some y then
          { m.heap y with readOpen := false, writeOpen := false, peer := none }
        else m.heap y := by
  simp only [hangUp, get_of_live hlive, bind_eq_bind, bind_some]
  cases hp : (m.heap x).peer with
  | none =>
    refine ⟨_, rfl, rfl, rfl, rfl, fun y => ?_⟩
    by_cases hy : y = x
    · rw [if_pos hy, hy, set_self]
    · rw [if_neg hy, if_neg nofun, set_other _ _ hy]
  | some p =>
    obtain ⟨-, hlivep⟩ := hpeer p hp
    simp only [get_of_live hlivep, bind_some]
    refine ⟨_, rfl, rfl, rfl, rfl, fun y => ?_⟩
    by_cases hy : y = x
    · rw [if_pos hy, hy, set_self]
    · rw [if_neg hy, set_other _ _ hy]
      by_cases hyp : y = p
      · rw [if_pos (congrArg some hyp.symm), hyp, set_self]
      · rw [if_neg fun heq => hyp (some.inj heq).symm, set_other _ _ hyp]

omit hpeer in
/-- The last part only changes reference counts and what is live. -/
lemma dropRefs_spec {peer : Option ℕ} (hx : (m.heap x).peer = none)
    (hpeer : ∀ p, peer = some p → p ≠ x ∧ m.live p = true ∧ (m.heap p).peer = none) :
    ∃ m', dropRefs m peer x = some m' ∧ m'.fresh = m.fresh ∧ m'.boundList = m.boundList ∧
      (∀ y, m'.live y = (m.live y && !((y = x ∨ peer = some y) && (m.heap y).refcount = 1))) ∧
      ∀ y, m'.heap y = { m.heap y with
        refcount := (m.heap y).refcount - if y = x ∨ peer = some y then 1 else 0 } := by
  unfold dropRefs
  cases peer with
  | none =>
    obtain ⟨m', hrun, hfresh, hlist, hlive', hother, hself⟩ := unixSockPut_spec m.fresh hlive hx
    refine ⟨m', hrun, hfresh, hlist, fun y => ?_, fun y => ?_⟩
    · rw [hlive']
      simp
    · by_cases hy : y = x
      · simp [hy, hself]
      · simp [hy, hother y hy]
  | some p =>
    obtain ⟨hne, hlivep, hp⟩ := hpeer p rfl
    obtain ⟨m1, hrun1, hfresh1, hlist1, hlive1, hother1, hself1⟩ :=
      unixSockPut_spec m.fresh hlivep hp
    have hx1 := hother1 x hne.symm
    have hlivex : m1.live x = true := by
      rw [hlive1, hlive]
      simp [hne.symm]
    obtain ⟨m', hrun, hfresh, hlist, hlive', hother, hself⟩ :=
      unixSockPut_spec m1.fresh hlivex (by rw [hx1, hx])
    simp only [hrun1, bind_eq_bind, bind_some]
    refine ⟨m', hrun, hfresh.trans hfresh1, hlist.trans hlist1, fun y => ?_, fun y => ?_⟩
    · rw [hlive', hlive1]
      by_cases hy : y = x
      · rw [hy, hx1]
        simp [hne.symm]
      · by_cases hyp : y = p
        · rw [hyp]
          simp [hne]
        · simp [hy, hyp, Ne.symm hyp]
    · by_cases hy : y = x
      · simp [hy, hself, hx1]
      · rw [hother y hy]
        by_cases hyp : y = p
        · simp [hyp, hself1]
        · simp [hother1 y hyp, hy, Ne.symm hyp]

/-- **`unix_close`** ends the connection, takes the socket out of the list and drops a reference
to it and one to its peer. -/
lemma unixClose_spec (hlist : IsList m.next m.boundList l) (hl : ∀ y ∈ l, m.live y = true)
    (hlen : l.length ≤ m.fresh) (hpath : x ∈ l → (m.heap x).path ≠ "") :
    ∃ m', unixClose m x = some m' ∧ Closed x l m m' := by
  obtain ⟨m1, hrun1, hlive1, hfresh1, hbound1, hheap1⟩ := hangUp_spec hlive hpeer
  have hnext1 : ∀ y, m1.next y = m.next y := by
    intro y
    rw [Mem.next, hheap1]
    split_ifs with hy
    · rw [hy]; rfl
    · rfl
    · rfl
  have hlist1 : IsList m1.next m1.boundList l := by
    rw [hbound1]
    exact hlist.congr fun y _ => hnext1 y
  obtain ⟨m2, hrun2, hlist2, hlive2, hfresh2, hheap2, hnext2⟩ : ∃ m2,
      removeBound m1 x (m.heap x).path = some m2 ∧ IsList m2.next m2.boundList (l.erase x) ∧
      m2.live = m1.live ∧ m2.fresh = m1.fresh ∧
      (∀ y, m2.heap y = { m1.heap y with next := m2.next y }) ∧
      ∀ y, y ∉ l → m2.next y = m1.next y := by
    unfold removeBound
    split_ifs with hp
    · exact unlinkBound_spec hlist1 (fun y hy => by rw [hlive1]; exact hl y hy)
        (show l.length < m1.fresh + 1 by rw [hfresh1]; omega) x
    · have hnot : x ∉ l := fun hx => hp (hpath hx)
      refine ⟨m1, rfl, ?_, rfl, rfl, fun _ => rfl, fun _ _ => rfl⟩
      rwa [erase_of_not_mem hnot]
  have hlivem : m2.live = m.live := hlive2.trans hlive1
  have hpeer2 : ∀ p, (m.heap x).peer = some p →
      p ≠ x ∧ m2.live p = true ∧ (m2.heap p).peer = none := by
    intro p hp
    refine ⟨(hpeer p hp).1, ?_, ?_⟩
    · rw [hlivem]
      exact (hpeer p hp).2
    · simp [hheap2, hheap1, (hpeer p hp), hp]
  obtain ⟨m3, hrun3, hfresh3, hbound3, hlive3, hheap3⟩ := dropRefs_spec
    (show m2.live x = true by rwa [hlivem])
    (by rw [hheap2, hheap1, if_pos rfl]) hpeer2
  have hnext3 : m3.next = m2.next := by
    funext y
    rw [Mem.next, hheap3]
    rfl
  have href : ∀ y, (m2.heap y).refcount = (m.heap y).refcount := by
    intro y
    rw [hheap2, hheap1]
    split_ifs with hy
    · rw [hy]
    · rfl
    · rfl
  have hrest : ∀ y, m3.heap y = { m1.heap y with
      next := m3.next y
      refcount := (m.heap y).refcount - if y = x ∨ (m.heap x).peer = some y then 1 else 0 } := by
    intro y
    rw [hheap3, href, hheap2, hnext3]
  refine ⟨m3, ?_, ?_⟩
  · simp only [unixClose, get_of_live hlive, hrun1, hrun2, hrun3, bind_eq_bind, bind_some]
  · constructor
    · rw [hfresh3, hfresh2, hfresh1]
    · rwa [hnext3, hbound3]
    · intro y hy
      rw [hnext3, hnext2 y hy, hnext1]
    · intro y
      rw [hlive3, hlivem, href]
    · intro y
      rw [hrest]
    -- the fields of a cell, which is the socket, its peer or another one
    all_goals
      intro y
      rw [hrest, hheap1]
      by_cases hy : y = x
      · simp [hy]
      · by_cases hyp : (m.heap x).peer = some y <;> simp [hy, hyp]

end

/-! ## The invariant -/

/-- The pointers of accept queues: the head of a queue, or the link of a socket that waits. -/
def Sys.ptr (s : Sys) : ℕ ⊕ ℕ → Option ℕ
  | .inl l => (s.mem.heap l).acceptQueue
  | .inr u => if s.queued u then s.mem.next u else none

/-- A step that keeps the queues, and the links of the sockets in them, keeps the pointers. -/
lemma Sys.ptr_congr {s s' : Sys}
    (hqueue : ∀ z, (s'.mem.heap z).acceptQueue = (s.mem.heap z).acceptQueue)
    (hqueued : s'.queued = s.queued)
    (hnext : ∀ u, s.queued u = true → s'.mem.next u = s.mem.next u) : s'.ptr = s.ptr := by
  funext a
  cases a with
  | inl z => exact hqueue z
  | inr u =>
    simp only [Sys.ptr, hqueued]
    split
    · next hu => exact hnext u hu
    · rfl

/-- What the operations keep; `l` is the list of bound sockets. -/
structure Linked (s : Sys) (l : List ℕ) : Prop where
  sound : s.broken = false
  frontier : ∀ x, s.mem.fresh ≤ x →
    s.mem.live x = false ∧ s.fds x = 0 ∧ s.queued x = false ∧ s.ptr (.inl x) = none
  list : IsList s.mem.next s.mem.boundList l
  mem_iff : ∀ x, x ∈ l ↔ s.bound x = true
  live : ∀ x ∈ l, s.mem.live x = true
  path_ne : ∀ x ∈ l, (s.mem.heap x).path ≠ ""
  path_inj : ∀ x ∈ l, ∀ y ∈ l, (s.mem.heap x).path = (s.mem.heap y).path → x = y
  held : ∀ x ∈ l, 0 < s.fds x
  waiting : ∀ x, s.queued x = true → s.fds x = 0
  ptr_queued : ∀ a y, s.ptr a = some y → s.queued y = true
  ptr_inj : ∀ a b y, s.ptr a = some y → s.ptr b = some y → a = b
  peer : ∀ x p, s.mem.live x = true → (s.mem.heap x).peer = some p →
    p ≠ x ∧ s.mem.live p = true ∧ (s.mem.heap p).peer = some x ∧
      (s.mem.heap x).state = .connected

lemma linked_init : Linked .init [] where
  sound := rfl
  frontier := fun _ _ => ⟨rfl, rfl, rfl, rfl⟩
  list := rfl
  mem_iff := fun _ => ⟨nofun, nofun⟩
  live := nofun
  path_ne := nofun
  path_inj := nofun
  held := nofun
  waiting := nofun
  ptr_queued := fun a y h => by cases a <;> cases h
  ptr_inj := fun a b y h => by cases a <;> cases h
  peer := nofun

namespace Linked

variable {inbox : ℕ → List UInt8} {up : ℕ → Bool} {dropped : ℕ → ℕ}

variable {s s' : Sys} {l : List ℕ}

section

variable (h : Linked s l)

include h

lemma lt_fresh (hx : s.mem.live x = true) : x < s.mem.fresh := by
  by_contra hge
  simp [(h.frontier x (by omega)).1] at hx

lemma length_le : l.length ≤ s.mem.fresh := by
  have hsub : l ⊆ List.range s.mem.fresh := fun x hx =>
    mem_range.2 (h.lt_fresh (h.live x hx))
  have hle := (h.list.nodup.subperm hsub).length_le
  rwa [length_range] at hle

/-- A socket that waits in a queue has no descriptor. -/
lemma ne_of_queued (hy : s.queued y = true) (hx : 0 < s.fds x) : y ≠ x := by
  rintro rfl
  simp [h.waiting y hy] at hx

lemma not_mem_of_queued (hy : s.queued y = true) : y ∉ l :=
  fun hmem => h.ne_of_queued hy (h.held y hmem) rfl

/-- **`unix_find_bound`** finds the socket with the path. -/
lemma findBound (path : String) : ∃ r, unixFindBound s.mem path = some r ∧
      (∀ x, r = some x → x ∈ l ∧ (s.mem.heap x).path = path) ∧
      (r = none → ∀ x ∈ l, (s.mem.heap x).path ≠ path) := by
  have hlen := h.length_le
  have hfind : unixFindBound s.mem path = _ := findFrom_eq h.list h.live
    (show l.length < s.mem.fresh + 1 by omega)
  refine ⟨_, hfind, fun x hx => ?_, fun hnone x hx heq => ?_⟩
  · have hpath := find?_some hx
    exact ⟨mem_of_find?_eq_some hx, (of_decide_eq_true hpath).2⟩
  · have hno := find?_eq_none.1 hnone x hx
    exact hno (decide_eq_true ⟨h.path_ne x hx, heq⟩)

section

variable (hsound : s'.broken = false) (hfresh : s'.mem.fresh = s.mem.fresh)
  (hlive : s'.mem.live = s.mem.live) (hlist : s'.mem.boundList = s.mem.boundList)

include hsound hfresh hlive hlist

omit hfresh hlive hlist in
/-- A step that keeps the cells of the list. -/
lemma keep_list (hlist : s'.mem.boundList = s.mem.boundList) (hbound : s'.bound = s.bound)
    (hcell : ∀ x ∈ l, s'.mem.live x = true ∧ s'.mem.next x = s.mem.next x ∧
      (s'.mem.heap x).path = (s.mem.heap x).path ∧ 0 < s'.fds x) (frontier : ∀ x, s'.mem.fresh ≤ x →
      s'.mem.live x = false ∧ s'.fds x = 0 ∧ s'.queued x = false ∧ s'.ptr (.inl x) = none)
    (waiting : ∀ x, s'.queued x = true → s'.fds x = 0)
    (ptr_queued : ∀ a y, s'.ptr a = some y → s'.queued y = true)
    (ptr_inj : ∀ a b y, s'.ptr a = some y → s'.ptr b = some y → a = b)
    (peer : ∀ x p, s'.mem.live x = true → (s'.mem.heap x).peer = some p →
      p ≠ x ∧ s'.mem.live p = true ∧ (s'.mem.heap p).peer = some x ∧
        (s'.mem.heap x).state = .connected) : Linked s' l where
  sound := hsound
  frontier := frontier
  list := by
    rw [hlist]
    exact h.list.congr fun x hx => (hcell x hx).2.1
  mem_iff := by
    rw [hbound]
    exact h.mem_iff
  live x hx := (hcell x hx).1
  path_ne x hx := by
    rw [(hcell x hx).2.2.1]
    exact h.path_ne x hx
  path_inj x hx y hy := by
    rw [(hcell x hx).2.2.1, (hcell y hy).2.2.1]
    exact h.path_inj x hx y hy
  held x hx := (hcell x hx).2.2.2
  waiting := waiting
  ptr_queued := ptr_queued
  ptr_inj := ptr_inj
  peer := peer

/-- A step that keeps the links of the list and does not add pointers to accept queues. -/
lemma mono (hcell : ∀ x ∈ l, s'.mem.next x = s.mem.next x ∧
      (s'.mem.heap x).path = (s.mem.heap x).path)
    (hptr : ∀ a y, s'.ptr a = some y → s.ptr a = some y)
    (hpeer : ∀ x, (s'.mem.heap x).peer = (s.mem.heap x).peer ∧
      ((s'.mem.heap x).peer ≠ none → (s'.mem.heap x).state = (s.mem.heap x).state))
    (hfds : ∀ x, s'.fds x = 0 ↔ s.fds x = 0) (hqueued : s'.queued = s.queued)
    (hbound : s'.bound = s.bound) : Linked s' l := by
  refine h.keep_list hsound hlist hbound (fun x hx => ?_) (fun x hx => ?_) (fun x hx => ?_)
    (fun a y hy => ?_) (fun a b y ha hb => h.ptr_inj a b y (hptr a y ha) (hptr b y hb))
    (fun x p hx hp => ?_)
  · rw [hlive]
    refine ⟨h.live x hx, (hcell x hx).1, (hcell x hx).2, Nat.pos_of_ne_zero fun hzero => ?_⟩
    exact (h.held x hx).ne' ((hfds x).1 hzero)
  · rw [hfresh] at hx
    obtain ⟨h1, h2, h3, h4⟩ := h.frontier x hx
    rw [hlive, hqueued]
    refine ⟨h1, (hfds x).2 h2, h3, ?_⟩
    cases hnone : s'.ptr (.inl x) with
    | none => rfl
    | some y =>
      simp [hptr _ y hnone] at h4
  · rw [hqueued] at hx
    exact (hfds x).2 (h.waiting x hx)
  · rw [hqueued]
    exact h.ptr_queued a y (hptr a y hy)
  · rw [hlive] at hx ⊢
    have hstate := (hpeer x).2 (by rw [hp]; nofun)
    rw [(hpeer x).1] at hp
    rw [(hpeer p).1, hstate]
    exact h.peer x p hx hp

/-- A step that keeps the links of every cell. -/
lemma congr (hcell : ∀ x, s'.mem.next x = s.mem.next x ∧
      (s'.mem.heap x).acceptQueue = (s.mem.heap x).acceptQueue ∧
      (s'.mem.heap x).path = (s.mem.heap x).path ∧ (s'.mem.heap x).peer = (s.mem.heap x).peer ∧
      (s'.mem.heap x).state = (s.mem.heap x).state) (hfds : ∀ x, s'.fds x = 0 ↔ s.fds x = 0)
    (hqueued : s'.queued = s.queued) (hbound : s'.bound = s.bound) : Linked s' l := by
  refine h.mono hsound hfresh hlive hlist (fun x _ => ⟨(hcell x).1, (hcell x).2.2.1⟩) ?_
    (fun x => ⟨(hcell x).2.2.2.1, fun _ => (hcell x).2.2.2.2⟩) hfds hqueued hbound
  rw [Sys.ptr_congr (fun x => (hcell x).2.1) hqueued fun u _ => (hcell u).1]
  exact fun _ _ => id

end

/-- A socket that is not connected has no peer. -/
lemma peer_eq_none (hx : s.mem.live x = true)
    (hstate : (s.mem.heap x).state ≠ .connected) : (s.mem.heap x).peer = none := by
  cases hp : (s.mem.heap x).peer with
  | none => rfl
  | some p => exact absurd (h.peer x p hx hp).2.2.2 hstate

/-! ## The operations -/

/-- A new socket. -/
lemma create (type : SockType) : Linked { s with
      mem := (unixSocketCreate s.mem type).1, fds := update s.fds s.mem.fresh 1
      dropped := dropped, up := up, inbox := inbox } l := by
  set m' := (unixSocketCreate s.mem type).1 with hm'
  have hother : ∀ {y}, y ≠ s.mem.fresh → m'.heap y = s.mem.heap y ∧ m'.live y = s.mem.live y := by
    intro y hy
    rw [hm']
    exact ⟨update_of_ne hy .., update_of_ne hy ..⟩
  have hself : m'.heap s.mem.fresh =
      { type := type, bufSize := if type = .stream then unixBufSize else 0 } ∧
      m'.live s.mem.fresh = true := by
    rw [hm']
    exact ⟨update_self .., update_self ..⟩
  have hfresh : m'.fresh = s.mem.fresh + 1 := by rw [hm']; rfl
  obtain ⟨-, -, hnoq, hnoptr⟩ := h.frontier s.mem.fresh le_rfl
  have hne : ∀ {y}, s.mem.live y = true → y ≠ s.mem.fresh := fun hy => (h.lt_fresh hy).ne
  have hqne : ∀ {y}, s.queued y = true → y ≠ s.mem.fresh := by
    rintro y hy rfl
    simp [hnoq] at hy
  have hptr : Sys.ptr { s with
      mem := m', fds := update s.fds s.mem.fresh 1, dropped := dropped, up := up
      inbox := inbox } = s.ptr := by
    refine Sys.ptr_congr (fun z => ?_) rfl fun u hu => ?_
    · by_cases hz : z = s.mem.fresh
      · simp only [hz, hself.1]
        exact hnoptr.symm
      · simp only [(hother hz).1]
    · simp only [Mem.next, (hother (hqne hu)).1]
  refine h.keep_list h.sound (by rw [hm']; rfl) rfl (fun x hx => ?_) (fun x hx => ?_)
    (fun x hx => ?_) (by rw [hptr]; exact h.ptr_queued) (by rw [hptr]; exact h.ptr_inj)
    (fun x p hx hp => ?_)
  · have hxne := hne (h.live x hx)
    simp only [Mem.next, hother hxne, update_of_ne hxne]
    exact ⟨h.live x hx, trivial, trivial, h.held x hx⟩
  · change m'.fresh ≤ x at hx
    have hxne : x ≠ s.mem.fresh := by omega
    simp only [hptr, hother hxne, update_of_ne hxne]
    exact h.frontier x (by omega)
  · simp only [update_of_ne (hqne hx)]
    exact h.waiting x hx
  · by_cases hxn : x = s.mem.fresh
    · simp [hxn, hself.1] at hp
    · rw [(hother hxn).1] at hp
      rw [(hother hxn).2] at hx
      have hpeer := h.peer x p hx hp
      simpa only [hother hxn, hother (hne hpeer.2.1)] using hpeer

omit h in
/-- `unix_bind` succeeds. -/
def BindOk (s : Sys) (x : ℕ) (addr : SockAddr) : Prop :=
  addr.family = afUnix ∧ addr.path.length ≠ 0 ∧ addr.path.length < unixPathMax ∧
    (s.mem.heap x).state = .closed ∧ ∀ y, s.bound y = true → (s.mem.heap y).path ≠ addr.path

lemma unixBind_cases (hx : s.mem.live x = true) (addr : SockAddr) :
    (¬ BindOk s x addr ∧ ∃ e, unixBind s.mem x addr = some (s.mem, some e)) ∨
      (BindOk s x addr ∧ unixBind s.mem x addr =
        some ({ s.mem.set x { s.mem.heap x with path := addr.path, next := s.mem.boundList } with
          boundList := some x }, none)) := by
  simp only [unixBind, get_of_live hx, bind_eq_bind, bind_some]
  obtain ⟨r, hfind, hsome, hnone⟩ := h.findBound addr.path
  rw [hfind, bind_some]
  split_ifs with hfam hlen hstate hfound
  · exact .inl ⟨fun hok => hfam hok.1, _, rfl⟩
  · refine .inl ⟨fun hok => ?_, _, rfl⟩
    obtain ⟨-, h1, h2, -⟩ := hok
    omega
  · exact .inl ⟨fun hok => hstate hok.2.2.2.1, _, rfl⟩
  · obtain ⟨y, rfl⟩ := isSome_iff_exists.1 hfound
    obtain ⟨hy, hpath⟩ := hsome y rfl
    exact .inl ⟨fun hok => hok.2.2.2.2 y ((h.mem_iff y).1 hy) hpath, _, rfl⟩
  · rw [not_not] at hfam hstate
    refine .inr ⟨⟨hfam, by omega, by omega, hstate, fun y hy => ?_⟩, rfl⟩
    exact hnone (by simpa using hfound) y ((h.mem_iff y).2 hy)

/-- A socket that was not bound is put in front of the list. -/
lemma bind {addr : SockAddr} (hx : s.mem.live x = true) (hfds : 0 < s.fds x)
    (hnew : s.bound x = false) (hok : BindOk s x addr) :
    Linked { s with
      mem := { s.mem.set x { s.mem.heap x with path := addr.path, next := s.mem.boundList } with
        boundList := some x }
      bound := update s.bound x true } (x :: l) := by
  set m' := ({ s.mem.set x { s.mem.heap x with
    path := addr.path, next := s.mem.boundList } with boundList := some x } : Mem) with hm'
  obtain ⟨-, hlen, -, -, hfree⟩ := hok
  have hxl : x ∉ l := fun hmem => by
    simp [(h.mem_iff x).1 hmem] at hnew
  have hother : ∀ {y}, y ≠ x → m'.heap y = s.mem.heap y := fun hy => by
    rw [hm']
    exact update_of_ne hy ..
  have hself : m'.heap x = { s.mem.heap x with path := addr.path, next := s.mem.boundList } := by
    rw [hm']
    exact update_self ..
  have hlive : m'.live = s.mem.live := by rw [hm']; rfl
  have hnext : m'.next = update s.mem.next x s.mem.boundList := by
    rw [hm']
    exact s.mem.next_set x _
  have hold : ∀ {y}, y ∈ l → y ≠ x := by
    rintro y hy rfl
    exact hxl hy
  have hpath : addr.path ≠ "" := by
    intro hempty
    rw [hempty] at hlen
    exact hlen rfl
  have hptr : Sys.ptr { s with mem := m', bound := update s.bound x true } = s.ptr := by
    refine Sys.ptr_congr (fun y => ?_) rfl fun u hu => ?_
    · rw [hm']
      exact set_field UnixSock.acceptQueue (by rfl) y
    · simp [hnext, (h.ne_of_queued hu hfds)]
  constructor
  · exact h.sound
  · intro y hy
    rw [hptr]
    have hfresh : m'.fresh = s.mem.fresh := by rw [hm']; rfl
    rw [hfresh] at hy
    rw [hlive]
    exact h.frontier y hy
  · rw [hnext, show m'.boundList = some x by rw [hm']]
    exact h.list.push hxl
  · intro y
    show y ∈ x :: l ↔ update s.bound x true y = true
    by_cases hy : y = x
    · rw [hy, update_self]
      simp
    · rw [update_of_ne hy, mem_cons, h.mem_iff]
      simp [hy]
  · rw [hlive]
    exact forall_mem_cons.2 ⟨hx, h.live⟩
  · refine forall_mem_cons.2 ⟨by rwa [hself], fun y hy => ?_⟩
    rw [hother (hold hy)]
    exact h.path_ne y hy
  · intro y hy z hz
    obtain hyx | hyl := mem_cons.1 hy
    · obtain hzx | hzl := mem_cons.1 hz
      · exact fun _ => hyx.trans hzx.symm
      · rw [hyx, hself, hother (hold hzl)]
        exact fun heq => absurd heq.symm (hfree z ((h.mem_iff z).1 hzl))
    · obtain hzx | hzl := mem_cons.1 hz
      · rw [hzx, hself, hother (hold hyl)]
        exact fun heq => absurd heq (hfree y ((h.mem_iff y).1 hyl))
      · rw [hother (hold hyl), hother (hold hzl)]
        exact h.path_inj y hyl z hzl
  · exact forall_mem_cons.2 ⟨hfds, h.held⟩
  · exact h.waiting
  · rw [hptr]
    exact h.ptr_queued
  · rw [hptr]
    exact h.ptr_inj
  · intro y p hy hp
    have hpeer : ∀ z, (m'.heap z).peer = (s.mem.heap z).peer ∧
        (m'.heap z).state = (s.mem.heap z).state := by
      rw [hm']
      exact fun z => ⟨set_field UnixSock.peer (by rfl) z, set_field UnixSock.state (by rfl) z⟩
    rw [hlive] at hy ⊢
    rw [(hpeer y).1] at hp
    rw [(hpeer p).1, (hpeer y).2]
    exact h.peer y p hy hp

omit h in
lemma unixListen_cases (hx : m.live x = true) (backlog : ℤ) :
    (∃ e, unixListen m x backlog = some (m, some e)) ∨
      ∃ n, (m.heap x).state = .closed ∧ unixListen m x backlog = some (m.set x { m.heap x with
        backlog := n, state := .listening, acceptQueue := none, acceptQueueLen := 0 }, none) := by
  simp only [unixListen, get_of_live hx, bind_eq_bind, bind_some]
  split
  · exact .inl ⟨_, rfl⟩
  split
  · exact .inl ⟨_, rfl⟩
  next hstate =>
    rw [not_or, not_not] at hstate
    exact .inr ⟨_, hstate.1, rfl⟩

/-- A socket begins to listen. -/
lemma listen (hx : s.mem.live x = true) (hstate : (s.mem.heap x).state = .closed) (n : ℤ) :
    Linked { s with mem := s.mem.set x { s.mem.heap x with
      backlog := n, state := .listening, acceptQueue := none, acceptQueueLen := 0 } } l := by
  have hnone := h.peer_eq_none hx (by rw [hstate]; nofun)
  refine h.mono h.sound rfl rfl rfl
    (fun y _ => ⟨set_field UnixSock.next (by rfl) y, set_field UnixSock.path (by rfl) y⟩)
    (fun a y hy => ?_) (fun y => ⟨set_field UnixSock.peer (by rfl) y, ?_⟩) (fun _ => Iff.rfl)
    rfl rfl
  · cases a with
    | inl z =>
      by_cases hz : z = x
      · simp [hz, Sys.ptr, set_self] at hy
      · rwa [Sys.ptr, set_other _ _ hz] at hy
    | inr u => rwa [Sys.ptr, Mem.next, set_field UnixSock.next (by rfl)] at hy
  · intro hsome
    by_cases hy : y = x
    · rw [hy, set_self] at hsome
      exact absurd hnone hsome
    · rw [set_other _ _ hy]

omit h in
/-- What `unix_accept` does. -/
lemma unixAccept_cases (hx : m.live x = true) :
    (∃ r, (∀ y, r ≠ .sock y) ∧ unixAccept m x = some (m, r) ∧
      ((m.heap x).type = .stream → (m.heap x).state = .listening →
        ¬ 0 < (m.heap x).acceptQueueLen)) ∨
      ((m.heap x).type = .stream ∧ (m.heap x).state = .listening ∧ 0 < (m.heap x).acceptQueueLen ∧
        unixAccept m x = (m.heap x).acceptQueue.bind fun y => (m.get y).map fun _ =>
          (m.dequeue x y ((m.heap x).acceptQueueLen - 1), .sock y)) := by
  simp only [unixAccept, get_of_live hx, bind_eq_bind, bind_some]
  split_ifs with htype hstate hlen
  · exact .inl ⟨.null, nofun, rfl, fun h => absurd h htype⟩
  · exact .inl ⟨.null, nofun, rfl, fun _ h => absurd h hstate⟩
  · exact .inl ⟨.blocked, nofun, rfl, fun _ _ => by omega⟩
  · rw [not_not] at htype hstate
    refine .inr ⟨htype, hstate, by omega, ?_⟩
    cases (m.heap x).acceptQueue with
    | none => rfl
    | some y =>
      cases hy : m.live y with
      | false => simp [get_of_not_live hy]
      | true => simp [get_of_live hy, dequeue, Mem.next]

omit h in
/-- The socket that `unix_accept` takes from a queue has not been freed. -/
lemma exists_queued (hx : m.live x = true) (htype : (m.heap x).type = .stream)
    (hstate : (m.heap x).state = .listening) (hlen : 0 < (m.heap x).acceptQueueLen)
    (hrun : unixAccept m x ≠ none) : ∃ y, (m.heap x).acceptQueue = some y ∧ m.live y = true := by
  obtain ⟨-, -, -, hno⟩ | ⟨-, -, -, heq⟩ := unixAccept_cases hx
  · exact absurd hlen (hno htype hstate)
  · rw [heq] at hrun
    cases hq : (m.heap x).acceptQueue with
    | none => simp [hq] at hrun
    | some y =>
      refine ⟨y, rfl, Bool.of_not_eq_false fun hy => hrun ?_⟩
      rw [hq, bind_some, get_of_not_live hy, map_none]

/-- The first socket of an accept queue gets a descriptor. -/
lemma accept (hfds : 0 < s.fds x)
    (hqueue : (s.mem.heap x).acceptQueue = some y) (hy : s.mem.live y = true) (n : ℤ) :
    Linked { s with
      mem := s.mem.dequeue x y n, fds := update s.fds y (s.fds y + 1)
      queued := update s.queued y false } l := by
  have hyq : s.queued y = true := h.ptr_queued (.inl x) y hqueue
  have hyx : y ≠ x := h.ne_of_queued hyq hfds
  have hyl : y ∉ l := h.not_mem_of_queued hyq
  set m' := s.mem.dequeue x y n with hm'
  have hother : ∀ {z}, z ≠ x → z ≠ y → m'.heap z = s.mem.heap z := fun hzx hzy => by
    rw [hm', dequeue, set_other _ _ hzy, set_other _ _ hzx]
  have hselfx : m'.heap x = { s.mem.heap x with
      acceptQueue := s.mem.next y, acceptQueueLen := n } := by
    rw [hm', dequeue, set_other _ _ hyx.symm, set_self]
  have hselfy : m'.heap y = { s.mem.heap y with next := none } := by
    rw [hm', dequeue, set_self, set_other _ _ hyx]
  have hfields : ∀ z, (m'.heap z).path = (s.mem.heap z).path ∧
      (m'.heap z).peer = (s.mem.heap z).peer ∧ (m'.heap z).state = (s.mem.heap z).state ∧
      (z ≠ y → m'.next z = s.mem.next z) := by
    intro z
    by_cases hzx : z = x
    · rw [hzx, Mem.next, hselfx]
      exact ⟨rfl, rfl, rfl, fun _ => rfl⟩
    · by_cases hzy : z = y
      · rw [hzy, hselfy]
        exact ⟨rfl, rfl, rfl, fun hne => absurd rfl hne⟩
      · rw [Mem.next, hother hzx hzy]
        exact ⟨rfl, rfl, rfl, fun _ => rfl⟩
  have hlive : m'.live = s.mem.live := by rw [hm']; rfl
  set s' := ({ s with
      mem := m', fds := update s.fds y (s.fds y + 1)
      queued := update s.queued y false } : Sys) with hs'
  -- the head of the queue takes over the link of the socket that leaves it
  have hptr : ∀ a, s'.ptr a =
      if a = .inl x then s.ptr (.inr y) else if a = .inr y then none else s.ptr a := by
    intro a
    rw [hs']
    cases a with
    | inl z =>
      by_cases hz : z = x
      · subst hz
        rw [if_pos rfl]
        show (m'.heap z).acceptQueue = if s.queued y then s.mem.next y else none
        rw [hselfx, hyq]
        rfl
      · rw [if_neg (by simpa using hz), if_neg nofun]
        show (m'.heap z).acceptQueue = (s.mem.heap z).acceptQueue
        by_cases hzy : z = y
        · rw [hzy, hselfy]
        · rw [hother hz hzy]
    | inr u =>
      rw [if_neg nofun]
      show (if update s.queued y false u then m'.next u else none) = _
      by_cases hu : u = y
      · subst hu
        rw [update_self, if_pos rfl]
        rfl
      · have huy : (Sum.inr u : ℕ ⊕ ℕ) ≠ .inr y := by simpa using hu
        rw [if_neg huy, update_of_ne hu, (hfields u).2.2.2 hu]
        rfl
  have hnot : ∀ {a}, s'.ptr a ≠ some y := by
    intro a ha
    rw [hptr] at ha
    split_ifs at ha with h1 h2
    · cases h.ptr_inj (.inr y) (.inl x) y ha hqueue
    · exact h1 (h.ptr_inj a (.inl x) y ha hqueue)
  have hcell : ∀ {z}, z ≠ y → s'.fds z = s.fds z ∧ s'.queued z = s.queued z := by
    intro z hz
    rw [hs']
    exact ⟨update_of_ne hz .., update_of_ne hz ..⟩
  have hmem : s'.mem = m' := by rw [hs']
  refine h.keep_list (by rw [hs']; exact h.sound) (by rw [hmem, hm']; rfl) (by rw [hs'])
    (fun z hz => ?_) (fun z hz => ?_) (fun z hz => ?_) (fun a z hz => ?_) (fun a b z ha hb => ?_)
    (fun z p hz hp => ?_)
  · have hzy : z ≠ y := by
      rintro rfl
      exact hyl hz
    rw [hmem, hlive, (hfields z).1, (hfields z).2.2.2 hzy, (hcell hzy).1]
    exact ⟨h.live z hz, rfl, rfl, h.held z hz⟩
  · obtain ⟨h1, h2, h3, h4⟩ := h.frontier z (by rwa [hmem, hm'] at hz)
    have hzy : z ≠ y := by
      rintro rfl
      simp [h1] at hy
    have hzx : z ≠ x := by
      rintro rfl
      simp [h2] at hfds
    rw [hptr, if_neg (by simpa using hzx), if_neg nofun, hmem, hlive, (hcell hzy).1, (hcell hzy).2]
    exact ⟨h1, h2, h3, h4⟩
  · have hzy : z ≠ y := by
      rintro rfl
      simp [hs'] at hz
    rw [(hcell hzy).2] at hz
    rw [(hcell hzy).1]
    exact h.waiting z hz
  · have hzy : z ≠ y := by
      rintro rfl
      exact hnot hz
    rw [hptr] at hz
    rw [(hcell hzy).2]
    split_ifs at hz with h1 h2
    · exact h.ptr_queued _ z hz
    · exact h.ptr_queued _ z hz
  · rw [hptr] at ha hb
    split_ifs at ha hb with h1 h2 h3 h4 h5 h6
    · rw [h1, h2]
    · exact absurd (h.ptr_inj b (.inr y) z hb ha) h3
    · exact absurd (h.ptr_inj a (.inr y) z ha hb) h4
    · exact h.ptr_inj a b z ha hb
  · rw [hmem, hlive] at hz
    rw [hmem, (hfields z).2.1] at hp
    rw [hmem, hlive, (hfields p).2.1, (hfields z).2.2.1]
    exact h.peer z p hz hp

omit h in
/-- What `unix_connect` leaves behind: the sockets `x` and `y` are peers, and `y` waits in the
queue of the listener. -/
structure Connected (x y k : ℕ) (m m' : Mem) : Prop where
  fresh : m'.fresh = m.fresh + 1
  new : y = m.fresh
  boundList : m'.boundList = m.boundList
  live : m'.live = Function.update m.live y true
  other : ∀ z, z ≠ x → z ≠ y → z ≠ k → m'.heap z = m.heap z
  client : m'.heap x = { m.heap x with peer := some y, state := .connected }
  server : m'.heap y =
    { type := .stream, bufSize := unixBufSize, peer := some x, state := .connected,
      path := (m.heap k).path, next := (m.heap k).acceptQueue }
  listener : m'.heap k = { m.heap k with
    acceptQueue := some y, acceptQueueLen := (m.heap k).acceptQueueLen + 1 }

omit h in
lemma establish_connected {k : ℕ} (hxk : x ≠ k) (hxy : x ≠ m.fresh) (hky : k ≠ m.fresh) :
    Connected x m.fresh k m (establish m x k).1 := by
  set m1 := (unixSocketCreate m .stream).1 with hm1
  have hold : ∀ {z}, z ≠ m.fresh → m1.heap z = m.heap z := fun hz => by
    rw [hm1]
    exact update_of_ne hz ..
  have hnew : m1.heap m.fresh = { type := .stream, bufSize := unixBufSize } := by
    rw [hm1]
    exact update_self ..
  set m2 := m1.set x { m1.heap x with
    peer := some m.fresh, state := .connected } with hm2
  set m3 := m2.set m.fresh { m2.heap m.fresh with
    peer := some x, state := .connected, path := (m2.heap k).path,
    next := (m2.heap k).acceptQueue } with hm3
  have hrun : (establish m x k).1 = m3.set k { m3.heap k with
      acceptQueue := some m.fresh, acceptQueueLen := (m3.heap k).acceptQueueLen + 1 } := by
    rw [hm3, hm2, hm1]
    rfl
  have hk2 : m2.heap k = m.heap k := by rw [hm2, set_other _ _ hxk.symm, hold hky]
  have hk3 : m3.heap k = m.heap k := by rw [hm3, set_other _ _ hky, hk2]
  rw [hrun]
  constructor
  · rw [hm3, hm2, hm1]
    rfl
  · rfl
  · rw [hm3, hm2, hm1]
    rfl
  · rw [hm3, hm2, hm1]
    rfl
  · intro z hzx hzy hzk
    rw [set_other _ _ hzk, hm3, set_other _ _ hzy, hm2, set_other _ _ hzx, hold hzy]
  · rw [set_other _ _ hxk, hm3, set_other _ _ hxy, hm2, set_self, hold hxy]
  · rw [set_other _ _ hky.symm, hm3, set_self, hk2, hm2, set_other _ _ hxy.symm, hnew]
  · rw [set_self, hk3]

section

variable (hx : s.mem.live x = true)

include hx

lemma unixConnect_cases (addr : SockAddr) (mem : Bool) :
    (∃ e, unixConnect s.mem x addr mem = some (s.mem, .error e)) ∨
      ∃ k m', k ∈ l ∧ (s.mem.heap k).state = .listening ∧ (s.mem.heap x).state = .closed ∧
        (s.mem.heap x).type = .stream ∧
        unixConnect s.mem x addr mem = some (m', .ok s.mem.fresh) ∧
        Connected x s.mem.fresh k s.mem m' := by
  simp only [unixConnect, get_of_live hx, bind_eq_bind, bind_some]
  obtain ⟨r, hfind, hsome, -⟩ := h.findBound addr.path
  rw [hfind, bind_some]
  cases r with
  | none =>
    refine .inl ?_
    split_ifs <;> exact ⟨_, rfl⟩
  | some k =>
    obtain ⟨hk, -⟩ := hsome k rfl
    have hklive := h.live k hk
    simp only [get_of_live hklive, bind_some]
    split_ifs with hfam htype hstate hlisten hlen hmem
    iterate 6 exact .inl ⟨_, rfl⟩
    rw [not_not] at htype hstate hlisten
    have hxk : x ≠ k := by
      rintro rfl
      simp [hstate] at hlisten
    exact .inr ⟨k, _, hk, hlisten, hstate, htype, rfl,
      establish_connected hxk (h.lt_fresh hx).ne (h.lt_fresh hklive).ne⟩

/-- A connection is established. -/
lemma connect {k : ℕ} {m' : Mem} (hk : k ∈ l) (hstate : (s.mem.heap x).state = .closed)
    (hlisten : (s.mem.heap k).state = .listening) (hc : Connected x y k s.mem m') :
    Linked { s with
      mem := m', queued := update s.queued y true, dropped := dropped, up := up
      inbox := inbox } l := by
  have hklive := h.live k hk
  have hyfresh := hc.new
  obtain ⟨-, hyfds, hyq, hyptr⟩ := h.frontier y hyfresh.ge
  have hlive_ne : ∀ {z}, s.mem.live z = true → z ≠ y := fun hz =>
    hyfresh ▸ (h.lt_fresh hz).ne
  have hxy := hlive_ne hx
  have hlive : ∀ {z}, z ≠ y → m'.live z = s.mem.live z := fun hz => by
    simp [hc.live, hz]
  have hlivey : m'.live y = true := by simp [hc.live]
  have hfields : ∀ z, z ≠ y → (m'.heap z).path = (s.mem.heap z).path ∧
      m'.next z = s.mem.next z ∧ (z ≠ k → (m'.heap z).acceptQueue = (s.mem.heap z).acceptQueue) ∧
      (z ≠ x → (m'.heap z).peer = (s.mem.heap z).peer ∧
        (m'.heap z).state = (s.mem.heap z).state) := by
    intro z hzy
    by_cases hzx : z = x
    · rw [hzx, Mem.next, hc.client]
      exact ⟨rfl, rfl, fun _ => rfl, fun hne => absurd rfl hne⟩
    · by_cases hzk : z = k
      · rw [hzk, Mem.next, hc.listener]
        exact ⟨rfl, rfl, fun hne => absurd rfl hne, fun _ => ⟨rfl, rfl⟩⟩
      · rw [Mem.next, hc.other z hzx hzy hzk]
        exact ⟨rfl, rfl, fun _ => rfl, fun _ => ⟨rfl, rfl⟩⟩
  have hxpeer := h.peer_eq_none hx (by rw [hstate]; nofun)
  set s' := ({ s with
      mem := m', queued := update s.queued y true, dropped := dropped, up := up
      inbox := inbox } : Sys) with hs'
  -- the new socket is put between the head of the queue and what it pointed to
  have hptr : ∀ a, s'.ptr a =
      if a = .inl k then some y else if a = .inr y then s.ptr (.inl k) else s.ptr a := by
    intro a
    rw [hs']
    cases a with
    | inl z =>
      by_cases hzk : z = k
      · subst hzk
        rw [if_pos rfl]
        show (m'.heap z).acceptQueue = some y
        rw [hc.listener]
      · rw [if_neg (by simpa using hzk), if_neg nofun]
        by_cases hzy : z = y
        · rw [hzy, hyptr]
          show (m'.heap y).acceptQueue = none
          rw [hc.server]
        · exact (hfields z hzy).2.2.1 hzk
    | inr u =>
      rw [if_neg nofun]
      show (if update s.queued y true u then m'.next u else none) = _
      by_cases hu : u = y
      · subst hu
        rw [update_self, if_pos rfl, if_pos rfl, Mem.next, hc.server]
        rfl
      · have huy : (Sum.inr u : ℕ ⊕ ℕ) ≠ .inr y := by simpa using hu
        rw [if_neg huy, update_of_ne hu, (hfields u hu).2.1]
        rfl
  have hold : ∀ {a z}, s.ptr a = some z → z ≠ y := by
    rintro a z ha rfl
    simp [h.ptr_queued a z ha] at hyq
  have hmem : s'.mem = m' := by rw [hs']
  have hqueued : ∀ {z}, z ≠ y → s'.queued z = s.queued z := by
    intro z hz
    rw [hs']
    exact update_of_ne hz ..
  refine h.keep_list (by rw [hs']; exact h.sound) (by rw [hmem, hc.boundList]) (by rw [hs'])
    (fun z hz => ?_) (fun z hz => ?_) (fun z hz => ?_) (fun a z hz => ?_) (fun a b z ha hb => ?_)
    (fun z p hz hp => ?_)
  · have hzy := hlive_ne (h.live z hz)
    rw [hmem, hlive hzy, (hfields z hzy).1, (hfields z hzy).2.1, hs']
    exact ⟨h.live z hz, rfl, rfl, h.held z hz⟩
  · rw [hmem, hc.fresh] at hz
    obtain ⟨h1, h2, h3, h4⟩ := h.frontier z (by omega)
    have hzy : z ≠ y := by omega
    have hzk : z ≠ k := by
      rintro rfl
      simp [h1] at hklive
    rw [hptr, if_neg (by simpa using hzk), if_neg nofun, hmem, hlive hzy, hqueued hzy, hs']
    exact ⟨h1, h2, h3, h4⟩
  · by_cases hzy : z = y
    · rw [hzy, hs', hyfds]
    · rw [hqueued hzy] at hz
      rw [hs', h.waiting z hz]
  · rw [hptr] at hz
    split_ifs at hz with h1 h2
    · rw [← some.inj hz, hs']
      exact update_self ..
    · rw [hqueued (hold hz), h.ptr_queued _ z hz]
    · rw [hqueued (hold hz), h.ptr_queued _ z hz]
  · rw [hptr] at ha hb
    split_ifs at ha hb with h1 h2 h3 h4 h5 h6 h7 h8
    · rw [h1, h2]
    · exact absurd (some.inj ha).symm (hold hb)
    · exact absurd (some.inj ha).symm (hold hb)
    · exact absurd (some.inj hb).symm (hold ha)
    · rw [h4, h6]
    · exact absurd (h.ptr_inj b (.inl k) z hb ha) h5
    · exact absurd (some.inj hb).symm (hold ha)
    · exact absurd (h.ptr_inj a (.inl k) z ha hb) h1
    · exact h.ptr_inj a b z ha hb
  · rw [hmem] at hz hp ⊢
    by_cases hzx : z = x
    · rw [hzx, hc.client] at hp ⊢
      cases hp
      rw [hc.server]
      exact ⟨hxy.symm, hlivey, rfl, rfl⟩
    · by_cases hzy : z = y
      · rw [hzy, hc.server] at hp ⊢
        cases hp
        rw [hlive hxy, hc.client]
        exact ⟨hxy, hx, rfl, rfl⟩
      · rw [hlive hzy] at hz
        obtain ⟨hpeerz, hstatez⟩ := (hfields z hzy).2.2.2 hzx
        rw [hpeerz] at hp
        obtain ⟨hne, hplive, hback, hconn⟩ := h.peer z p hz hp
        have hpy := hlive_ne hplive
        have hpx : p ≠ x := by
          rintro rfl
          simp [hxpeer] at hback
        rw [hlive hpy, ((hfields p hpy).2.2.2 hpx).1, hstatez]
        exact ⟨hne, hplive, hback, hconn⟩

/-- What `unix_send` does: it fails, or it writes to the buffer of the peer. -/
lemma unixSend_cases (data : List UInt8) :
    (∃ r, (∀ n, r ≠ .sent n) ∧ unixSend s.mem x data = some (s.mem, r)) ∨
      ∃ p n first, (s.mem.heap x).peer = some p ∧ (s.mem.heap p).count < (s.mem.heap p).bufSize ∧
        n = min data.length ((s.mem.heap p).bufSize - (s.mem.heap p).count) ∧
        first = min ((s.mem.heap p).bufSize - (s.mem.heap p).tail) n ∧
        unixSend s.mem x data = some (s.mem.set p { s.mem.heap p with
          buf := blit (blit (s.mem.heap p).buf (s.mem.heap p).tail (data.take first)) 0
            ((data.take n).drop first)
          tail := ((s.mem.heap p).tail + n) % (s.mem.heap p).bufSize
          count := (s.mem.heap p).count + n }, .sent n) := by
  simp only [unixSend, get_of_live hx, bind_eq_bind, bind_some]
  split_ifs with hdata htype hstate
  · exact .inl ⟨.error .einval, nofun, rfl⟩
  · exact .inl ⟨.error .eopnotsupp, nofun, rfl⟩
  · exact .inl ⟨.error .enotconn, nofun, rfl⟩
  cases hp : (s.mem.heap x).peer with
  | none => exact .inl ⟨.error .enotconn, nofun, rfl⟩
  | some p =>
    obtain ⟨-, hplive, -⟩ := h.peer x p hx hp
    simp only [get_of_live hplive, bind_some]
    split_ifs with hopen hfull
    · exact .inl ⟨.error .epipe, nofun, rfl⟩
    · exact .inl ⟨.blocked, nofun, rfl⟩
    · exact .inr ⟨p, _, _, rfl, by omega, rfl, rfl, rfl⟩

/-- What `unix_recv` does: it reads from the buffer if something is there. -/
lemma unixRecv_cases (maxLen : ℕ) :
    (∃ r, (∀ bytes, r ≠ .received bytes) ∧ unixRecv s.mem x maxLen = some (s.mem, r) ∧
      (maxLen = 0 ∨ (s.mem.heap x).type ≠ .stream ∨ (s.mem.heap x).state ≠ .connected ∨
        (s.mem.heap x).count = 0)) ∨
      ∃ n first, (s.mem.heap x).state = .connected ∧ n = min maxLen (s.mem.heap x).count ∧
        first = min ((s.mem.heap x).bufSize - (s.mem.heap x).head) n ∧
        unixRecv s.mem x maxLen = some (s.mem.set x { s.mem.heap x with
          head := ((s.mem.heap x).head + n) % (s.mem.heap x).bufSize
          count := (s.mem.heap x).count - n },
          .received (slice (s.mem.heap x).buf (s.mem.heap x).head first ++
            slice (s.mem.heap x).buf 0 (n - first))) := by
  simp only [unixRecv, get_of_live hx, bind_eq_bind, bind_some]
  split_ifs with hlen htype hstate hcount hopen
  · exact .inl ⟨.error .einval, nofun, rfl, .inl hlen⟩
  · exact .inl ⟨.error .eopnotsupp, nofun, rfl, .inr (.inl htype)⟩
  · exact .inl ⟨.error .enotconn, nofun, rfl, .inr (.inr (.inl hstate))⟩
  · exact .inr ⟨_, _, not_not.1 hstate, rfl, rfl, rfl⟩
  · exact .inl ⟨.eof, nofun, rfl, .inr (.inr (.inr (by omega)))⟩
  · have hzero : (s.mem.heap x).count = 0 := by omega
    cases hp : (s.mem.heap x).peer with
    | none => exact .inl ⟨.eof, nofun, rfl, .inr (.inr (.inr hzero))⟩
    | some p =>
      obtain ⟨-, hplive, -⟩ := h.peer x p hx hp
      simp only [get_of_live hplive, bind_some]
      split_ifs
      · exact .inl ⟨.eof, nofun, rfl, .inr (.inr (.inr hzero))⟩
      · exact .inl ⟨.blocked, nofun, rfl, .inr (.inr (.inr hzero))⟩

omit hx in
/-- Writing the data of a cell keeps the links. -/
lemma set_data {fds : ℕ → ℕ} {sk : UnixSock}
    (hsk : sk.next = (s.mem.heap x).next ∧ sk.acceptQueue = (s.mem.heap x).acceptQueue ∧
      sk.path = (s.mem.heap x).path ∧ sk.peer = (s.mem.heap x).peer ∧
      sk.state = (s.mem.heap x).state) (hfds : ∀ z, fds z = 0 ↔ s.fds z = 0) :
    Linked { s with mem := s.mem.set x sk, fds := fds, inbox := inbox } l := by
  obtain ⟨hnext, hqueue, hpath, hpeer, hstate⟩ := hsk
  exact h.congr h.sound rfl rfl rfl (fun z => ⟨set_field UnixSock.next hnext z,
    set_field UnixSock.acceptQueue hqueue z, set_field UnixSock.path hpath z,
    set_field UnixSock.peer hpeer z, set_field UnixSock.state hstate z⟩) hfds rfl rfl

/-- A socket is closed whose peer stays or is not bound. -/
lemma close {m' : Mem} (hfds : 0 < s.fds x) (hc : Closed x l s.mem m')
    (hpeer : ∀ p, (s.mem.heap x).peer = some p →
      ¬ (s.bound p = true ∧ (s.mem.heap p).refcount = 1)) :
    Linked { s with
      mem := m', fds := update s.fds x (s.fds x - 1), dropped := dropped
      bound := update s.bound x false, up := up } (l.erase x) := by
  have hnd := h.list.nodup
  have hmem : ∀ {y}, y ∈ l.erase x ↔ y ≠ x ∧ y ∈ l := hnd.mem_erase_iff
  have hptr : Sys.ptr { s with
      mem := m', fds := update s.fds x (s.fds x - 1), dropped := dropped
      bound := update s.bound x false, up := up } = s.ptr :=
    Sys.ptr_congr (fun z => (hc.same z).2.2) rfl fun u hu => hc.next u (h.not_mem_of_queued hu)
  constructor
  · exact h.sound
  · intro z hz
    rw [hptr]
    rw [hc.fresh] at hz
    obtain ⟨h1, h2, h3, h4⟩ := h.frontier z hz
    refine ⟨?_, ?_, h3, h4⟩
    · rw [hc.live, h1]
      rfl
    · show update s.fds x (s.fds x - 1) z = 0
      rw [update_of_ne, h2]
      rintro rfl
      simp [h2] at hfds
  · exact hc.list
  · intro z
    show z ∈ l.erase x ↔ update s.bound x false z = true
    rw [hmem, h.mem_iff]
    by_cases hz : z = x
    · rw [hz, update_self]
      simp
    · rw [update_of_ne hz]
      simp [hz]
  · intro z hz
    obtain ⟨hzx, hzl⟩ := hmem.1 hz
    rw [hc.live, h.live z hzl, Bool.true_and, Bool.not_eq_true', Bool.and_eq_false_iff]
    by_cases href : (s.mem.heap z).refcount = 1
    · refine .inl (decide_eq_false ?_)
      rintro (hzx' | hpz)
      · exact hzx hzx'
      · exact hpeer z hpz ⟨(h.mem_iff z).1 hzl, href⟩
    · exact .inr (decide_eq_false href)
  · intro z hz
    rw [(hc.same z).1]
    exact h.path_ne z (hmem.1 hz).2
  · intro z hz w hw
    rw [(hc.same z).1, (hc.same w).1]
    exact h.path_inj z (hmem.1 hz).2 w (hmem.1 hw).2
  · intro z hz
    obtain ⟨hzx, hzl⟩ := hmem.1 hz
    show 0 < update s.fds x (s.fds x - 1) z
    rw [update_of_ne hzx]
    exact h.held z hzl
  · intro z hz
    show update s.fds x (s.fds x - 1) z = 0
    simp [(h.ne_of_queued hz hfds), h.waiting z hz]
  · rw [hptr]
    exact h.ptr_queued
  · rw [hptr]
    exact h.ptr_inj
  · intro z p hz hp
    rw [hc.peer] at hp
    split_ifs at hp with hzx
    rw [not_or] at hzx
    have hzlive : s.mem.live z = true := by
      rw [hc.live] at hz
      exact (Bool.and_eq_true_iff.1 hz).1
    obtain ⟨hne, hplive, hback, hstate⟩ := h.peer z p hzlive hp
    have hpx : ¬ (p = x ∨ (s.mem.heap x).peer = some p) := by
      rintro (rfl | hxp)
      · exact hzx.2 hback
      · obtain ⟨-, -, hpx, -⟩ := h.peer x p hx hxp
        rw [hpx] at hback
        exact hzx.1 (some.inj hback).symm
    refine ⟨hne, ?_, ?_, ?_⟩
    · rw [hc.live, hplive, decide_eq_false hpx]
      rfl
    · rw [hc.peer, if_neg hpx, hback]
    · rw [hc.state, if_neg hzx.1, hstate]

end

end

end Linked

end Aurora.Unix
