import Aurora.Lib.IndexList
import Aurora.Lib.Run
import Mathlib.Algebra.Group.Nat.Defs
import Mathlib.Data.List.Perm.Subperm
import Mathlib.Data.List.Range

/-!
# Virtqueue descriptors

`kernel/virtio_blk.c`. The driver and the device share a table of descriptors. The `next`
fields link the free descriptors into a list that starts at `free_head`, and they link the
descriptors of a request into a chain. The device returns the head of a chain through the used
ring, and `virtq_get_buf` puts the descriptors of the chain back.

Nothing marks the end of the free list: the last `next` field holds 0, which is the index of a
descriptor, and `virtq_add_descriptor` takes it for one when the list is used up.

## Main definitions

* `Virtq`, `virtqInit`, `virtqAddDescriptor`, `virtqAddChain`, `virtqKick`, `virtqGetBuf`: the
  queue.
* `Sys`, `Op`, `step`: the queue with the chains that are in flight and the completions that
  were not yet consumed.
* `Conserved`: the free list and the chains in flight partition the descriptors.
* `descriptors_conserved_iff`: when this is kept.
-/

namespace Aurora.VirtioBlk

open Lib Function List Option

/-- `VIRTIO_VQ_MAX_SIZE` -/
def vqMaxSize : ℕ := 256

/-- `VIRTQ_DESC_F_NEXT` -/
def descFNext : ℕ := 0x01

structure Desc where
  addr : ℕ := 0
  len : ℕ := 0
  flags : ℕ := 0
  next : ℕ := 0
  deriving DecidableEq, Repr

structure UsedElem where
  id : ℕ := 0
  len : ℕ := 0
  deriving DecidableEq, Repr

/-- `struct virtq` with the three tables it points to. -/
structure Virtq where
  num : ℕ
  freeHead : ℕ
  lastUsedIdx : ℕ
  desc : ℕ → Desc
  availRing : ℕ → ℕ
  availIdx : ℕ
  usedRing : ℕ → UsedElem
  usedIdx : ℕ

/-- `virtq_init`, when there is memory for the tables. -/
def virtqInit (queueSize : ℕ) : Virtq :=
  let queueSize := if queueSize > vqMaxSize then vqMaxSize else queueSize
  { num := queueSize, freeHead := 0, lastUsedIdx := 0,
    desc := fun i => { next := if i < queueSize - 1 then (i + 1) % 2 ^ 16 else 0 },
    availRing := fun _ => 0, availIdx := 0, usedRing := fun _ => {}, usedIdx := 0 }

/-- A buffer for the device: one element of the arrays that `virtq_add_chain` gets. -/
structure Buf where
  addr : ℕ
  len : ℕ
  flags : ℕ
  deriving DecidableEq, Repr

/-- `virtq_add_descriptor` -/
def virtqAddDescriptor (vq : Virtq) (b : Buf) : Virtq × Option ℕ :=
  if vq.freeHead ≥ vq.num then (vq, none)
  else
    let idx := vq.freeHead
    ({ vq with
        freeHead := (vq.desc idx).next
        desc := Function.update vq.desc idx
          { addr := b.addr, len := b.len, flags := b.flags, next := 0 } }, some idx)

/-- A descriptor is put back in front of the free list. -/
def Virtq.release (vq : Virtq) (id : ℕ) : Virtq :=
  { vq with
    desc := Function.update vq.desc id
      { vq.desc id with flags := 0, next := vq.freeHead % 2 ^ 16 }
    freeHead := id }

/-- The last descriptor of a chain that is being built gets a successor. -/
def Virtq.link (vq : Virtq) (prev : Option ℕ) (idx : ℕ) : Virtq :=
  match prev with
  | none => vq
  | some prev =>
    { vq with
      desc := Function.update vq.desc prev
        { vq.desc prev with
          flags := (vq.desc prev).flags ||| descFNext, next := idx % 2 ^ 16 } }

/-- The local variables of `virtq_add_chain`. -/
structure ChainState where
  vq : Virtq
  first : Option ℕ
  prev : Option ℕ
  allocIds : List ℕ

/-- The loop of `virtq_add_chain`; if a descriptor is missing, those of `alloc_ids` are put back,
the last one first. -/
def addLoop (c : ChainState) : List Buf → ChainState × Bool
  | [] => (c, true)
  | b :: bs =>
    match virtqAddDescriptor c.vq b with
    | (vq, none) => ({ c with vq := c.allocIds.reverse.foldl Virtq.release vq }, false)
    | (vq, some idx) =>
      addLoop
        { vq := vq.link c.prev idx
          first := c.first.or (some idx)
          prev := some idx
          allocIds := if c.allocIds.length < 8 then c.allocIds ++ [idx] else c.allocIds } bs

def ChainState.start (vq : Virtq) : ChainState := ⟨vq, none, none, []⟩

/-- `virtq_add_chain` -/
def virtqAddChain (vq : Virtq) (bufs : List Buf) : Virtq × Option ℕ :=
  if bufs = [] then (vq, none)
  else
    match addLoop (.start vq) bufs with
    | (c, true) => (c.vq, c.first)
    | (c, false) => (c.vq, none)

/-- The descriptors that `virtq_add_chain` takes. -/
def handedOut (vq : Virtq) (bufs : List Buf) : List ℕ := (addLoop (.start vq) bufs).1.allocIds

/-- `virtq_kick` -/
def virtqKick (vq : Virtq) (head : ℕ) : Virtq :=
  { vq with
    availRing := Function.update vq.availRing (vq.availIdx % vq.num) head
    availIdx := (vq.availIdx + 1) % 2 ^ 16 }

/-- The loop of `virtq_get_buf`, which makes at most `n` iterations: it puts back a descriptor and
goes on to its successor. -/
def releaseChain : ℕ → Virtq → ℕ → Virtq
  | 0, vq, _ => vq
  | n + 1, vq, current =>
    if current < vq.num then
      let flags := (vq.desc current).flags
      let next := (vq.desc current).next
      let vq := vq.release current
      if flags &&& descFNext = 0 ∨ next = 0 then vq else releaseChain n vq next
    else vq

/-- `virtq_get_buf` -/
def virtqGetBuf (vq : Virtq) : Virtq × Option UsedElem :=
  if vq.lastUsedIdx = vq.usedIdx then (vq, none)
  else
    let elem := vq.usedRing (vq.lastUsedIdx % vq.num % 2 ^ 16)
    if elem.id ≥ vq.num then (vq, none)
    else
      ({ releaseChain vq.num vq elem.id with lastUsedIdx := (vq.lastUsedIdx + 1) % 2 ^ 16 },
        some elem)

/-- The device posts a completion. -/
def Virtq.post (vq : Virtq) (elem : UsedElem) : Virtq :=
  { vq with
    usedRing := Function.update vq.usedRing (vq.usedIdx % vq.num) elem
    usedIdx := (vq.usedIdx + 1) % 2 ^ 16 }

/-! ## The system -/

/-- The queue, the chains in flight, and the heads of those chains whose completion was posted
but not yet consumed, in the order of the used ring. -/
structure Sys where
  vq : Virtq
  chains : List (List ℕ)
  pending : List ℕ

def Sys.init (queueSize : ℕ) : Sys := ⟨virtqInit queueSize, [], []⟩

inductive Op where
  | addChain (bufs : List Buf)
  | kick (head : ℕ)
  | complete (head len : ℕ)
  | getBuf
  deriving DecidableEq, Repr

/-- One operation. The device completes a chain that is in flight, once, and does not overwrite
a completion that was not yet consumed. -/
def step (s : Sys) : Op → Option Sys
  | .addChain bufs =>
    if 1 ≤ bufs.length ∧ bufs.length ≤ 8 then
      match virtqAddChain s.vq bufs with
      | (vq, none) => some { s with vq := vq }
      | (vq, some _) => some { s with vq := vq, chains := handedOut s.vq bufs :: s.chains }
    else none
  | .kick head =>
    if ∃ c ∈ s.chains, c.head? = some head then some { s with vq := virtqKick s.vq head } else none
  | .complete head len =>
    if (∃ c ∈ s.chains, c.head? = some head) ∧ head ∉ s.pending ∧
        ∀ i < s.pending.length,
          (s.vq.lastUsedIdx + i) % 2 ^ 16 % s.vq.num ≠ s.vq.usedIdx % s.vq.num then
      some { s with vq := s.vq.post ⟨head, len⟩, pending := s.pending ++ [head] }
    else none
  | .getBuf =>
    match virtqGetBuf s.vq with
    | (vq, none) => some { s with vq := vq }
    | (vq, some elem) =>
      some { vq := vq, chains := s.chains.eraseP fun c => c.head? = some elem.id,
             pending := s.pending.tail }

def Virtq.next (vq : Virtq) (i : ℕ) : ℕ := (vq.desc i).next

/-- The free list: as many descriptors from `free_head` on as are not in flight. -/
def Sys.free (s : Sys) : List ℕ :=
  cells s.vq.next s.vq.freeHead (s.vq.num - s.chains.flatten.length)

/-- The free list and the chains in flight partition the descriptors. -/
def Conserved (s : Sys) : Prop := (s.free ++ s.chains.flatten).Perm (List.range s.vq.num)

instance : DecidablePred Conserved := fun _ => inferInstanceAs (Decidable (List.Perm _ _))

/-- What an operation promises: descriptors that are handed out were free, a request fails
exactly if there are too few and then changes nothing, and a completion returns exactly the
descriptors of its chain. -/
def Delivers (s : Sys) : Op → Prop
  | .addChain bufs => 1 ≤ bufs.length ∧ bufs.length ≤ 8 →
      ((virtqAddChain s.vq bufs).2 = none ↔ s.free.length < bufs.length) ∧
      ((virtqAddChain s.vq bufs).2 = none → (exec step s (.addChain bufs)).free = s.free) ∧
      ((virtqAddChain s.vq bufs).2 ≠ none → (handedOut s.vq bufs).Nodup ∧
        ∀ i ∈ handedOut s.vq bufs, i ∈ s.free ∧ i ∉ s.chains.flatten)
  | .getBuf => ∀ elem, (virtqGetBuf s.vq).2 = some elem →
      ∃ c ∈ s.chains, c.head? = some elem.id ∧ (exec step s .getBuf).free.Perm (c ++ s.free)
  | _ => True

/-- The condition: a request is for no more descriptors than are free. -/
def Fits (s : Sys) : Op → Prop
  | .addChain bufs => 1 ≤ bufs.length ∧ bufs.length ≤ 8 →
      s.chains.flatten.length + bufs.length ≤ s.vq.num
  | _ => True

/-! ## Links -/

/-- A chain in flight: its descriptors are linked, all but the last have the flag, and the last
has no successor. -/
structure Chained (vq : Virtq) (c : List ℕ) : Prop where
  seg : ∃ h, Seg vq.next h c 0
  flags : ∀ l i, c = l ++ [i] → ∀ j ∈ l, (vq.desc j).flags &&& descFNext ≠ 0

/-- The queue with the free list `F` and the chains `C`. The links of the free list lead to 0. -/
structure Wired (vq : Virtq) (F : List ℕ) (C : List (List ℕ)) : Prop where
  pos : 0 < vq.num
  small : vq.num ≤ vqMaxSize
  free : Seg vq.next vq.freeHead F 0
  part : (F ++ C.flatten).Perm (List.range vq.num)
  chained : ∀ c ∈ C, Chained vq c
  bound : ∀ i, vq.next i < vq.num

variable {c : List ℕ} {i n : ℕ} {bufs : List Buf}

section Wired

variable {vq vq' : Virtq} {F : List ℕ} {C : List (List ℕ)} {x : ℕ}

lemma Chained.congr (h : Chained vq c) (hsame : ∀ i ∈ c, vq'.desc i = vq.desc i) :
    Chained vq' c where
  seg := by
    obtain ⟨a, ha⟩ := h.seg
    exact ⟨a, ha.congr fun i hi => by rw [Virtq.next, Virtq.next, hsame i hi]⟩
  flags := fun l i hc j hj => by
    rw [hsame j (by rw [hc]; exact mem_append_left _ hj)]
    exact h.flags l i hc j hj

namespace Wired

section

variable (h : Wired vq F C)

include h

lemma nodup : (F ++ C.flatten).Nodup := h.part.nodup_iff.2 nodup_range

lemma lt_of_mem (hi : i ∈ F ++ C.flatten) : i < vq.num :=
  mem_range.1 (h.part.subset hi)

lemma length_eq : F.length + C.flatten.length = vq.num := by
  rw [← length_append, h.part.length_eq, length_range]

lemma freeHead_lt : vq.freeHead < vq.num := by
  have hfree := h.free
  cases F with
  | nil =>
    rw [seg_nil.1 hfree]
    exact h.pos
  | cons x F =>
    rw [hfree.1]
    exact h.lt_of_mem (by simp)

/-- The free list is determined by the queue and the number of descriptors in flight. -/
lemma free_eq {p : List ℕ} : Sys.free ⟨vq, C, p⟩ = F := by
  have hlen := h.length_eq
  rw [Sys.free, show vq.num - C.flatten.length = F.length by omega]
  exact h.free.cells_eq

lemma conserved {p : List ℕ} : Conserved ⟨vq, C, p⟩ := by
  rw [Conserved, h.free_eq]
  exact h.part

lemma mod_eq (hi : i < vq.num) : i % 2 ^ 16 = i := by
  have hsmall := h.small
  exact Nat.mod_eq_of_lt (by unfold vqMaxSize at hsmall; omega)

/-- One descriptor is written: the chains that do not go through it are as before. -/
lemma rewire {F' : List ℕ} {C' : List (List ℕ)} (hnum : vq'.num = vq.num)
    (hsame : ∀ {i}, i ≠ x → vq'.desc i = vq.desc i) (hx : vq'.next x < vq.num)
    (hfree : Seg vq'.next vq'.freeHead F' 0) (hpart : (F' ++ C'.flatten).Perm (F ++ C.flatten))
    (hchained : ∀ c ∈ C', c ∈ C ∧ x ∉ c ∨ Chained vq' c) : Wired vq' F' C' where
  pos := hnum ▸ h.pos
  small := hnum ▸ h.small
  free := hfree
  part := hnum ▸ hpart.trans h.part
  chained c hc := (hchained c hc).elim
    (fun hold => (h.chained c hold.1).congr fun _ hi => hsame (ne_of_mem_of_not_mem hi hold.2)) id
  bound i := by
    rw [hnum]
    by_cases hi : i = x
    · rwa [hi]
    · rw [Virtq.next, hsame hi]
      exact h.bound i

omit h in
/-- **`virtq_add_descriptor`** takes the first free descriptor, if there is one. -/
lemma addDescriptor (h : Wired vq (x :: F) C) (b : Buf) :
    ∃ vq1, virtqAddDescriptor vq b = (vq1, some x) ∧ Wired vq1 F ([x] :: C) := by
  obtain ⟨hhead, hfree⟩ := h.free
  have hlt := h.freeHead_lt
  obtain ⟨hx, -⟩ := nodup_cons.1 h.nodup
  rw [virtqAddDescriptor, if_neg (by omega), hhead]
  refine ⟨_, rfl, h.rewire (x := x) rfl (fun hi => update_of_ne hi ..) ?_ ?_ perm_middle ?_⟩
  · simp only [Virtq.next, update_self]
    exact h.pos
  · refine hfree.congr fun i hi => ?_
    simp only [Virtq.next, update_of_ne (ne_of_mem_of_not_mem (mem_append_left _ hi) hx)]
  · intro c hc
    obtain rfl | hmem := mem_cons.1 hc
    · refine .inr ⟨⟨x, rfl, by simp only [Virtq.next, update_self]; rfl⟩, fun l i hl j hj => ?_⟩
      obtain ⟨rfl, -⟩ := append_inj' (show [] ++ [x] = l ++ [i] from hl) rfl
      cases hj
    · exact .inl ⟨hmem, fun hxc => hx (mem_append_right _ (mem_flatten.2 ⟨c, hmem, hxc⟩))⟩

omit h in
/-- A descriptor is linked to the end of a chain. -/
lemma link {l : List ℕ} {p : ℕ} (h : Wired vq F ([x] :: (l ++ [p]) :: C)) :
    Wired (vq.link (some p) x) F ((l ++ [p] ++ [x]) :: C) := by
  have hxlt : x < vq.num := h.lt_of_mem (by simp)
  have hshape : F ++ ([x] :: (l ++ [p]) :: C).flatten = (F ++ x :: l) ++ p :: C.flatten := by simp
  have hp : p ∉ (F ++ x :: l) ++ C.flatten := by
    have hnd := h.nodup
    rw [hshape, nodup_middle, nodup_cons] at hnd
    exact hnd.1
  simp only [mem_append, mem_cons, not_or] at hp
  obtain ⟨⟨hpF, hpx, hpl⟩, hpC⟩ := hp
  have hother : ∀ {i}, i ≠ p → (vq.link (some p) x).desc i = vq.desc i :=
    fun hi => update_of_ne hi ..
  have hself : (vq.link (some p) x).desc p =
      { vq.desc p with flags := (vq.desc p).flags ||| descFNext, next := x } := by
    show update vq.desc p _ p = _
    rw [update_self, h.mod_eq hxlt]
  have hnext : ∀ {m : List ℕ}, p ∉ m → ∀ i ∈ m, (vq.link (some p) x).next i = vq.next i :=
    fun hm i hi => by rw [Virtq.next, Virtq.next, hother (ne_of_mem_of_not_mem hi hm)]
  refine h.rewire rfl hother (by rwa [Virtq.next, hself]) (h.free.congr (hnext hpF))
    (.append_left F ?_) fun c hc => ?_
  · rw [flatten_cons, flatten_cons, flatten_cons, append_assoc (l ++ [p]),
      singleton_append, singleton_append]
    exact perm_middle
  · obtain rfl | hmem := mem_cons.1 hc
    · have hchain := h.chained (l ++ [p]) (by simp)
      obtain ⟨a, ha⟩ := hchain.seg
      obtain ⟨b, hb⟩ := (h.chained [x] (by simp)).seg
      obtain ⟨_, hl, hb', -⟩ := seg_append.1 ha
      rw [hb'] at hl
      refine .inr ⟨⟨a, Seg.append (Seg.append (hl.congr (hnext hpl)) ⟨rfl, ?_⟩) ⟨rfl, ?_⟩⟩, ?_⟩
      · rw [Virtq.next, hself]
        rfl
      · rw [seg_nil, hnext (m := [x]) (by simpa using hpx) x (by simp)]
        exact hb.2
      · intro m i hm j hj
        obtain ⟨rfl, -⟩ := append_inj' hm rfl
        obtain hj | hj := mem_append.1 hj
        · rw [hother (ne_of_mem_of_not_mem hj hpl)]
          exact hchain.flags l p rfl j hj
        · rw [mem_singleton.1 hj, hself]
          intro hzero
          have hbit := congrArg (Nat.testBit · 0) hzero
          simp [descFNext] at hbit
    · exact .inl ⟨by simp [hmem], fun hpc => hpC (mem_flatten.2 ⟨c, hmem, hpc⟩)⟩

/-- Two ways to see the same descriptors in flight. -/
lemma perm_chains {C' : List (List ℕ)} (hC : C'.Perm C) : Wired vq F C' where
  pos := h.pos
  small := h.small
  free := h.free
  part := (List.Perm.append_left F hC.flatten).trans h.part
  chained := fun c hc => h.chained c (hC.subset hc)
  bound := h.bound

/-! ## Adding a chain -/

omit h in
/-- A chain that was begun is completed from the free list. -/
lemma addLoop {c : ChainState} {l : List ℕ} {p : ℕ} (hids : c.allocIds = l ++ [p])
    (hprev : c.prev = some p) (hfirst : c.first ≠ none) (h : Wired c.vq F (c.allocIds :: C))
    (hfit : bufs.length ≤ F.length) (hmax : c.allocIds.length + bufs.length ≤ 8) :
    ∃ c', addLoop c bufs = (c', true) ∧ c'.first = c.first ∧
      c'.allocIds = c.allocIds ++ F.take bufs.length ∧
      Wired c'.vq (F.drop bufs.length) (c'.allocIds :: C) := by
  induction bufs generalizing c F l p with
  | nil =>
    refine ⟨c, rfl, rfl, ?_, h⟩
    rw [length_nil, take_zero, append_nil]
  | cons b _ ih =>
    cases F with
    | nil => cases hfit
    | cons x F =>
      rw [length_cons, length_cons] at hfit
      rw [length_cons] at hmax
      obtain ⟨vq1, hrun, h1⟩ := h.addDescriptor b
      have hlt : c.allocIds.length < 8 := by omega
      rw [hids] at h1
      have h2 := h1.link
      rw [← hids] at h2
      obtain ⟨first, hsome⟩ := ne_none_iff_exists'.1 hfirst
      simp only [VirtioBlk.addLoop, hrun, hprev, if_pos hlt]
      obtain ⟨c', hloop, hfirst', hids', h'⟩ := ih
        (c := ⟨vq1.link (some p) x, c.first.or (some x), some x, c.allocIds ++ [x]⟩)
        rfl rfl (by rw [hsome]; nofun) h2 (by omega)
        (by rw [length_append, length_singleton]; omega)
      refine ⟨c', hloop, ?_, ?_, h'⟩
      · rw [hfirst', hsome]
        rfl
      · rw [hids', append_assoc]
        rfl

/-- **`virtq_add_chain`** takes the first descriptors of the free list, if there are enough. -/
lemma addChain (hpos : 1 ≤ bufs.length) (hmax : bufs.length ≤ 8) (hfit : bufs.length ≤ F.length) :
    ∃ vq' i, virtqAddChain vq bufs = (vq', some i) ∧ handedOut vq bufs = F.take bufs.length ∧
      Wired vq' (F.drop bufs.length) (F.take bufs.length :: C) := by
  cases bufs with
  | nil => cases hpos
  | cons b bs =>
    cases F with
    | nil => cases hfit
    | cons x F =>
      rw [length_cons, length_cons] at hfit
      rw [length_cons] at hmax
      obtain ⟨vq1, hrun, h1⟩ := h.addDescriptor b
      have hrest : bs.length ≤ F.length := by omega
      obtain ⟨c', hloop, hfirst, hids, h'⟩ := Wired.addLoop (l := []) (p := x)
        (c := ⟨vq1, some x, some x, [x]⟩) rfl rfl nofun h1 hrest
        (by rw [length_singleton]; omega)
      have hall : VirtioBlk.addLoop (.start vq) (b :: bs) = (c', true) := by
        simp only [VirtioBlk.addLoop, ChainState.start, hrun]
        exact hloop
      refine ⟨c'.vq, x, ?_, ?_, ?_⟩
      · rw [virtqAddChain, if_neg (cons_ne_nil _ _), hall]
        show (c'.vq, c'.first) = _
        rw [hfirst]
      · rwa [handedOut, hall]
      · rwa [hids] at h'

end

/-! ## Returning a chain -/

/-- One descriptor of a chain is put back. -/
lemma release (h : Wired vq F ((i :: c) :: C)) : Wired (vq.release i) (i :: F) (c :: C) := by
  have hshape : F ++ ((i :: c) :: C).flatten = F ++ i :: (c ++ C.flatten) := by simp
  have hnd := h.nodup
  rw [hshape, nodup_middle, nodup_cons] at hnd
  obtain ⟨hi, -⟩ := hnd
  simp only [mem_append, not_or] at hi
  obtain ⟨hiF, hic, hiC⟩ := hi
  have hother : ∀ {j}, j ≠ i → (vq.release i).desc j = vq.desc j :=
    fun hj => update_of_ne hj ..
  have hself : (vq.release i).next i = vq.freeHead := by
    rw [Virtq.next]
    show (update vq.desc i _ i).next = _
    rw [update_self, h.mod_eq h.freeHead_lt]
  have hchain := h.chained (i :: c) mem_cons_self
  refine h.rewire rfl hother (hself ▸ h.freeHead_lt) ⟨rfl, ?_⟩ perm_middle.symm fun d hd => ?_
  · rw [hself]
    refine h.free.congr fun j hj => ?_
    rw [Virtq.next, Virtq.next, hother (ne_of_mem_of_not_mem hj hiF)]
  · obtain rfl | hd := mem_cons.1 hd
    · obtain ⟨a, -, hc⟩ := hchain.seg
      have hbefore : Chained vq d :=
        ⟨⟨_, hc⟩, fun l k hl j hj => hchain.flags (i :: l) k (by rw [hl]; rfl) j
          (mem_cons_of_mem i hj)⟩
      exact .inr (hbefore.congr fun j hj => hother (ne_of_mem_of_not_mem hj hic))
    · exact .inl ⟨mem_cons_of_mem _ hd, fun hid => hiC (mem_flatten.2 ⟨d, hd, hid⟩)⟩

/-- A chain that starts at 0 is where the links of the free list lead. -/
lemma absorb {t : List ℕ} (h : Wired vq F ((0 :: t) :: C)) : Wired vq (F ++ 0 :: t) C where
  pos := h.pos
  small := h.small
  free := by
    obtain ⟨a, rfl, ht⟩ := (h.chained (0 :: t) mem_cons_self).seg
    exact h.free.append ⟨rfl, ht⟩
  part := by
    rw [append_assoc]
    exact h.part
  chained := fun c hc => h.chained c (mem_cons_of_mem _ hc)
  bound := h.bound

/-- The loop of `virtq_get_buf` returns a whole chain: where it stops early, at descriptor 0, the
rest is linked to the end of the free list. -/
lemma releaseChain (h : Wired vq F ((i :: c) :: C)) (hn : c.length < n) :
    ∃ F', Wired (releaseChain n vq i) F' C := by
  induction n generalizing vq F i c with
  | zero => cases hn
  | succ n ih =>
    have hilt : i < vq.num := h.lt_of_mem (by simp)
    have hchain := h.chained (i :: c) mem_cons_self
    have hnext := h.release
    obtain ⟨a, -, hseg⟩ := hchain.seg
    simp only [VirtioBlk.releaseChain, if_pos hilt]
    cases c with
    | nil =>
      have hzero : (vq.desc i).next = 0 := seg_nil.1 hseg
      rw [if_pos (.inr hzero)]
      exact ⟨i :: F, { hnext with chained := fun d hd => hnext.chained d (mem_cons_of_mem _ hd) }⟩
    | cons j c =>
      obtain ⟨hj, -⟩ := hseg
      have hflag : (vq.desc i).flags &&& descFNext ≠ 0 := by
        have hlast := dropLast_append_getLast (cons_ne_nil j c)
        refine hchain.flags (i :: (j :: c).dropLast) ((j :: c).getLast (cons_ne_nil j c)) ?_ i
          mem_cons_self
        rw [cons_append, hlast]
      have hjn : (vq.desc i).next = j := hj
      rw [hjn]
      by_cases hj0 : j = 0
      · rw [if_pos (.inr hj0)]
        rw [hj0] at hnext
        exact ⟨_, hnext.absorb⟩
      · rw [if_neg (by simp [hflag, hj0])]
        exact ih hnext (by rw [length_cons] at hn; omega)

end Wired

end Wired

/-! ## The used ring -/

/-- The same size and the same used ring. -/
structure SameRing (vq vq' : Virtq) : Prop where
  num : vq'.num = vq.num
  last : vq'.lastUsedIdx = vq.lastUsedIdx
  ring : vq'.usedRing = vq.usedRing
  idx : vq'.usedIdx = vq.usedIdx

lemma SameRing.refl (vq : Virtq) : SameRing vq vq := ⟨rfl, rfl, rfl, rfl⟩

lemma SameRing.trans {vq1 vq2 vq3 : Virtq} (h : SameRing vq1 vq2) (h' : SameRing vq2 vq3) :
    SameRing vq1 vq3 :=
  ⟨h'.num.trans h.num, h'.last.trans h.last, h'.ring.trans h.ring, h'.idx.trans h.idx⟩

lemma Virtq.release_sameRing (vq : Virtq) (i : ℕ) : SameRing vq (vq.release i) :=
  ⟨rfl, rfl, rfl, rfl⟩

lemma Virtq.link_sameRing (vq : Virtq) (prev : Option ℕ) (i : ℕ) :
    SameRing vq (vq.link prev i) := by
  cases prev with
  | none => exact .refl vq
  | some p => exact ⟨rfl, rfl, rfl, rfl⟩

lemma releaseChain_sameRing (n : ℕ) (vq : Virtq) (i : ℕ) : SameRing vq (releaseChain n vq i) := by
  induction n generalizing vq i with
  | zero => exact .refl vq
  | succ n ih =>
    simp only [releaseChain]
    split_ifs
    · exact vq.release_sameRing i
    · exact (vq.release_sameRing i).trans (ih (vq.release i) _)
    · exact .refl vq

lemma virtqGetBuf_num (vq : Virtq) : (virtqGetBuf vq).1.num = vq.num := by
  simp only [virtqGetBuf]
  split_ifs
  · rfl
  · rfl
  · exact (releaseChain_sameRing vq.num vq _).num

/-- The used ring holds the completions that were not yet consumed. -/
structure Posted (s : Sys) : Prop where
  last : s.vq.lastUsedIdx < 2 ^ 16
  idx : s.vq.usedIdx = (s.vq.lastUsedIdx + s.pending.length) % 2 ^ 16
  ring : ∀ i, (hi : i < s.pending.length) →
    (s.vq.usedRing ((s.vq.lastUsedIdx + i) % 2 ^ 16 % s.vq.num)).id = s.pending[i]
  nodup : s.pending.Nodup
  heads : ∀ h ∈ s.pending, ∃ c ∈ s.chains, c.head? = some h

/-- What every operation that fits keeps. -/
def Sound (s : Sys) : Prop := (∃ F, Wired s.vq F s.chains) ∧ Posted s

section Steps

variable {C : List (List ℕ)} {vq : Virtq}

variable {s s' : Sys} {F : List ℕ}

lemma Posted.of_sameRing (h : Posted s)
    (hring : SameRing s.vq vq) (hC : ∀ c ∈ s.chains, c ∈ C) : Posted ⟨vq, C, s.pending⟩ where
  last := by
    rw [hring.last]
    exact h.last
  idx := by
    rw [hring.idx, hring.last]
    exact h.idx
  ring := fun i hi => by
    rw [hring.ring, hring.last, hring.num]
    exact h.ring i hi
  nodup := h.nodup
  heads := fun x hx => by
    obtain ⟨c, hc, hhead⟩ := h.heads x hx
    exact ⟨c, hC c hc, hhead⟩

lemma Wired.congr {vq' : Virtq} (h : Wired vq F C)
    (hnum : vq'.num = vq.num) (hhead : vq'.freeHead = vq.freeHead) (hdesc : vq'.desc = vq.desc) :
    Wired vq' F C where
  pos := by rw [hnum]; exact h.pos
  small := by rw [hnum]; exact h.small
  free := by
    rw [hhead]
    exact h.free.congr fun i _ => by rw [Virtq.next, Virtq.next, hdesc]
  part := by rw [hnum]; exact h.part
  chained := fun c hc => (h.chained c hc).congr fun i _ => by rw [hdesc]
  bound := fun i => by
    rw [hnum, Virtq.next, hdesc]
    exact h.bound i

/-- Less than the whole used ring is posted. -/
lemma Posted.length_le (h : Posted s) (hw : Wired s.vq F s.chains) :
    s.pending.length ≤ s.vq.num := by
  have hsub : s.pending ⊆ List.range s.vq.num := by
    intro x hx
    obtain ⟨c, hc, hhead⟩ := h.heads x hx
    refine mem_range.2 (hw.lt_of_mem (mem_append_right _ ?_))
    exact mem_flatten.2 ⟨c, hc, mem_of_head? hhead⟩
  have hle := (h.nodup.subperm hsub).length_le
  rwa [length_range] at hle

/-- **`virtq_get_buf`** returns the chain of the first completion that was not yet consumed. -/
lemma getBuf_cases (hw : Wired s.vq F s.chains) (h : Posted s) :
    (s.pending = [] ∧ virtqGetBuf s.vq = (s.vq, none)) ∨
      ∃ vq' elem c P C F', s.pending = elem.id :: P ∧ virtqGetBuf s.vq = (vq', some elem) ∧
        c.head? = some elem.id ∧ s.chains.Perm (c :: C) ∧
        (s.chains.eraseP fun c => c.head? = some elem.id) = C ∧ Wired vq' F' C ∧
        Posted ⟨vq', C, P⟩ := by
  have hidx := h.idx
  have hlast := h.last
  cases hpend : s.pending with
  | nil =>
    rw [hpend, length_nil, Nat.add_zero, Nat.mod_eq_of_lt hlast] at hidx
    refine .inl ⟨rfl, ?_⟩
    rw [virtqGetBuf, if_pos hidx.symm]
  | cons x P =>
    have hle := h.length_le hw
    have hsmall := hw.small
    unfold vqMaxSize at hsmall
    rw [hpend, length_cons] at hle
    rw [hpend, length_cons] at hidx
    have hne : s.vq.lastUsedIdx ≠ s.vq.usedIdx := by
      rw [hidx]
      omega
    obtain ⟨c, hc, hhead⟩ := h.heads x (by rw [hpend]; exact mem_cons_self)
    obtain ⟨d, l1, l2, -, hd, hsplit, herase⟩ :=
      exists_of_eraseP (p := fun d : List ℕ => decide (d.head? = some x)) hc
        (decide_eq_true hhead)
    have hhead' : d.head? = some x := of_decide_eq_true hd
    obtain ⟨t, rfl⟩ : ∃ t, d = x :: t := by
      cases d with
      | nil => cases hhead'
      | cons y t =>
        cases hhead'
        exact ⟨t, rfl⟩
    have hperm : s.chains.Perm ((x :: t) :: (l1 ++ l2)) := by
      rw [hsplit]
      exact perm_middle
    have hw' := hw.perm_chains hperm.symm
    have hxlt : x < s.vq.num := hw'.lt_of_mem (by simp)
    have hlen : t.length < s.vq.num := by
      have htotal := hw'.length_eq
      simp only [flatten_cons, length_append, length_cons] at htotal
      omega
    obtain ⟨F', hF'⟩ := hw'.releaseChain hlen
    have hring := releaseChain_sameRing s.vq.num s.vq x
    set elem := s.vq.usedRing (s.vq.lastUsedIdx % s.vq.num % 2 ^ 16) with helem
    have hslot : s.vq.lastUsedIdx % s.vq.num % 2 ^ 16 =
        (s.vq.lastUsedIdx + 0) % 2 ^ 16 % s.vq.num := by
      have hmod := Nat.mod_lt s.vq.lastUsedIdx hw.pos
      rw [Nat.add_zero, Nat.mod_eq_of_lt hlast, Nat.mod_eq_of_lt (by omega)]
    have hid : elem.id = x := by
      have h0 := h.ring 0 (by rw [hpend]; exact Nat.succ_pos _)
      rw [← hslot, ← helem] at h0
      rw [h0]
      simp only [hpend, getElem_cons_zero]
    subst hid
    refine .inr ⟨{ releaseChain s.vq.num s.vq elem.id with
        lastUsedIdx := (s.vq.lastUsedIdx + 1) % 2 ^ 16 }, elem, elem.id :: t, P, l1 ++ l2, F',
        rfl, ?_, rfl, hperm, herase, hF'.congr rfl rfl rfl, ?_⟩
    · rw [virtqGetBuf, if_neg hne]
      simp only [← helem]
      rw [if_neg (by omega)]
    · have hnd := h.nodup
      rw [hpend, nodup_cons] at hnd
      refine ⟨Nat.mod_lt _ (by decide), ?_, ?_, hnd.2, ?_⟩
      · show (releaseChain s.vq.num s.vq elem.id).usedIdx =
          ((s.vq.lastUsedIdx + 1) % 2 ^ 16 + P.length) % 2 ^ 16
        rw [hring.idx, hidx]
        omega
      · intro i hi
        have hnext := h.ring (i + 1) (by rw [hpend, length_cons]; exact Nat.succ_lt_succ hi)
        have hsum : ((s.vq.lastUsedIdx + 1) % 2 ^ 16 + i) % 2 ^ 16 =
            (s.vq.lastUsedIdx + (i + 1)) % 2 ^ 16 := by omega
        rw [hring.ring, hring.num, hsum, hnext]
        simp only [hpend, getElem_cons_succ]
      · intro y hy
        obtain ⟨e, he, hye⟩ := h.heads y (by rw [hpend]; exact mem_cons_of_mem _ hy)
        obtain rfl | he := mem_cons.1 (hperm.subset he)
        · rw [some.inj hye] at hnd
          exact absurd hy hnd.1
        · exact ⟨e, he, hye⟩

/-! ## Runs -/

/-- A descriptor is always handed out: `free_head` is always the index of one. -/
lemma addLoop_total {c : ChainState} (hhead : c.vq.freeHead < c.vq.num)
    (hbound : ∀ i, c.vq.next i < c.vq.num) (hmax : c.allocIds.length + bufs.length ≤ 8) :
    ∃ c', addLoop c bufs = (c', true) ∧ SameRing c.vq c'.vq ∧
      c'.allocIds.length = c.allocIds.length + bufs.length ∧
      (c.first ≠ none ∨ bufs ≠ [] → c'.first ≠ none) := by
  induction bufs generalizing c with
  | nil => exact ⟨c, rfl, .refl c.vq, rfl, fun h => h.resolve_right fun h => h rfl⟩
  | cons b _ ih =>
    rw [length_cons] at hmax
    have hlt : c.allocIds.length < 8 := by omega
    obtain ⟨vq1, hrun, hring1, hhead1, hbound1⟩ : ∃ vq1,
        virtqAddDescriptor c.vq b = (vq1, some c.vq.freeHead) ∧ SameRing c.vq vq1 ∧
          vq1.freeHead < c.vq.num ∧ ∀ i, vq1.next i < c.vq.num := by
      rw [virtqAddDescriptor, if_neg (by omega)]
      exact ⟨_, rfl, ⟨rfl, rfl, rfl, rfl⟩, hbound _,
        (forall_update_iff _ fun _ d => Desc.next d < c.vq.num).2
        ⟨Nat.zero_lt_of_lt hhead, fun i _ => hbound i⟩⟩
    have hring := hring1.trans (vq1.link_sameRing c.prev c.vq.freeHead)
    obtain ⟨hhead', hbound'⟩ : (vq1.link c.prev c.vq.freeHead).freeHead < c.vq.num ∧
        ∀ i, (vq1.link c.prev c.vq.freeHead).next i < c.vq.num := by
      cases c.prev with
      | none => exact ⟨hhead1, hbound1⟩
      | some p =>
        exact ⟨hhead1, (forall_update_iff _ fun _ d => Desc.next d < c.vq.num).2
          ⟨Nat.lt_of_le_of_lt (Nat.mod_le _ _) hhead, fun i _ => hbound1 i⟩⟩
    simp only [addLoop, hrun, if_pos hlt]
    obtain ⟨c', hloop, hring', hlen, hfirst⟩ := ih
      (c := ⟨vq1.link c.prev c.vq.freeHead, c.first.or (some c.vq.freeHead), some c.vq.freeHead,
        c.allocIds ++ [c.vq.freeHead]⟩)
      (by rwa [hring.num]) (by rwa [hring.num])
      (by rw [length_append, length_singleton]; omega)
    refine ⟨c', hloop, hring.trans hring', ?_, fun _ => hfirst (.inl ?_)⟩
    · rw [hlen, length_append, length_singleton, length_cons]
      omega
    · cases c.first <;> nofun

/-- `virtq_add_chain` never fails. -/
lemma Wired.addChain_total (h : Wired vq F C) (hpos : 1 ≤ bufs.length) (hmax : bufs.length ≤ 8) :
    ∃ vq' i, virtqAddChain vq bufs = (vq', some i) ∧ SameRing vq vq' ∧
      (handedOut vq bufs).length = bufs.length := by
  have hne : bufs ≠ [] := length_pos_iff.1 hpos
  have hroom : (ChainState.start vq).allocIds.length + bufs.length ≤ 8 := by
    rw [ChainState.start, length_nil]
    omega
  obtain ⟨c, hloop, hring, hlen, hfirst⟩ :=
    addLoop_total (c := .start vq) h.freeHead_lt h.bound hroom
  obtain ⟨i, hi⟩ := ne_none_iff_exists'.1 (hfirst (.inr hne))
  refine ⟨c.vq, i, ?_, hring, ?_⟩
  · rw [virtqAddChain, if_neg hne, hloop]
    exact congrArg (Prod.mk c.vq) hi
  · rw [handedOut, hloop, hlen, ChainState.start, length_nil, Nat.zero_add]

/-- **The promises** of an operation are kept exactly if it fits. -/
lemma Sound.delivers_iff (h : Sound s) (op : Op) : Delivers s op ↔ Fits s op := by
  obtain ⟨⟨F, hw⟩, hp⟩ := h
  have hfree : s.free = F := hw.free_eq
  have hlen := hw.length_eq
  cases op with
  | addChain bufs =>
    refine forall_congr' fun hbufs => ?_
    rw [hfree]
    constructor
    · rintro ⟨hfail, -⟩
      obtain ⟨vq', i, hrun, -⟩ := hw.addChain_total hbufs.1 hbufs.2
      rw [hrun] at hfail
      have hfit : ¬ F.length < bufs.length := fun hlt => nomatch hfail.2 hlt
      omega
    · intro hfit
      obtain ⟨vq', i, hrun, hids, -⟩ := hw.addChain hbufs.1 hbufs.2 (by omega)
      rw [hrun, hids]
      refine ⟨⟨nofun, fun hlt => by omega⟩, nofun, fun _ => ?_⟩
      have hnd := nodup_append.1 hw.nodup
      refine ⟨hnd.1.sublist (take_sublist _ _), fun j hj => ?_⟩
      have hjF := mem_of_mem_take hj
      exact ⟨hjF, fun hjC => hnd.2.2 j hjF j hjC rfl⟩
  | kick head => exact Iff.rfl
  | complete head _ => exact Iff.rfl
  | getBuf =>
    refine ⟨fun _ => trivial, fun _ elem helem => ?_⟩
    obtain ⟨-, hnone⟩ | ⟨vq', _, c, P, C, F', -, hrun, hhead, hperm, herase, hw', -⟩ :=
      getBuf_cases hw hp
    · simp [hnone] at helem
    · rw [hrun] at helem
      cases helem
      refine ⟨c, hperm.symm.subset mem_cons_self, hhead, ?_⟩
      have hstep : exec step s .getBuf = ⟨vq', C, s.pending.tail⟩ := by
        simp only [exec, step, hrun, herase, getD_some]
      have hnum := virtqGetBuf_num s.vq
      rw [hrun] at hnum
      rw [hstep, hw'.free_eq, hfree]
      have hboth : (F' ++ C.flatten).Perm (c ++ F ++ C.flatten) := by
        refine hw'.part.trans ?_
        rw [show vq'.num = s.vq.num from hnum]
        refine hw.part.symm.trans ?_
        refine (List.Perm.append_left F hperm.flatten).trans ?_
        rw [flatten_cons, ← append_assoc]
        exact List.Perm.append_right _ perm_append_comm
      exact (perm_append_right_iff _).1 hboth

/-- An operation that fits keeps everything in order. -/
lemma Sound.exec (h : Sound s) {op : Op} (hfits : Fits s op) : Sound (exec step s op) := by
  refine exec_invariant (fun s' hrun => ?_) h
  obtain ⟨⟨F, hw⟩, hp⟩ := h
  cases op with
  | addChain _ =>
    simp only [step] at hrun
    split_ifs at hrun with hbufs
    have hlen := hw.length_eq
    have hfit := hfits hbufs
    obtain ⟨vq', i, hadd, hids, hw'⟩ := hw.addChain hbufs.1 hbufs.2 (by omega)
    obtain ⟨_, _, hadd1, hring, -⟩ := hw.addChain_total hbufs.1 hbufs.2
    rw [hadd1] at hadd
    cases hadd
    rw [hadd1] at hrun
    cases hrun
    rw [hids]
    exact ⟨⟨_, hw'⟩, hp.of_sameRing hring fun c hc => mem_cons_of_mem _ hc⟩
  | kick head =>
    simp only [step] at hrun
    split_ifs at hrun
    cases hrun
    exact ⟨⟨F, hw.congr rfl rfl rfl⟩, hp.of_sameRing ⟨rfl, rfl, rfl, rfl⟩ fun _ hc => hc⟩
  | complete head len =>
    simp only [step] at hrun
    split_ifs at hrun with hcond
    cases hrun
    obtain ⟨hhead, hnew, hslot⟩ := hcond
    refine ⟨⟨F, hw.congr rfl rfl rfl⟩, hp.last, ?_, ?_, ?_, ?_⟩
    · show (s.vq.usedIdx + 1) % 2 ^ 16 = (s.vq.lastUsedIdx + (s.pending ++ [head]).length) % 2 ^ 16
      rw [hp.idx, length_append, length_singleton]
      omega
    · intro i hi
      show (update s.vq.usedRing (s.vq.usedIdx % s.vq.num) ⟨head, len⟩
        ((s.vq.lastUsedIdx + i) % 2 ^ 16 % s.vq.num)).id = (s.pending ++ [head])[i]
      by_cases hlt : i < s.pending.length
      · rw [update_of_ne (hslot i hlt), hp.ring i hlt, getElem_append_left hlt]
      · have hi' : i = s.pending.length := by
          simp only [length_append, length_singleton] at hi
          omega
        subst hi'
        rw [← hp.idx, update_self, getElem_concat_length rfl]
    · exact nodup_append.2 ⟨hp.nodup, nodup_singleton _, fun a ha b hb => by
        rintro rfl
        rw [mem_singleton.1 hb] at ha
        exact hnew ha⟩
    · intro x hx
      obtain hx | hx := mem_append.1 hx
      · exact hp.heads x hx
      · rwa [mem_singleton.1 hx]
  | getBuf =>
    obtain ⟨-, hnone⟩ | ⟨vq', _, c, P, C, F', hpend, hget, -, -, herase, hw', hp'⟩ :=
      getBuf_cases hw hp
    · simp only [step, hnone] at hrun
      cases hrun
      exact ⟨⟨F, hw⟩, hp⟩
    · simp only [step, hget, herase, hpend, tail_cons] at hrun
      cases hrun
      exact ⟨⟨F', hw'⟩, hp'⟩

/-- A request that does not fit breaks the partition. -/
lemma Sound.fits (h : Sound s) {op : Op} (hcons : Conserved (Lib.exec step s op)) : Fits s op := by
  obtain ⟨⟨F, hw⟩, -⟩ := h
  cases op with
  | addChain bufs =>
    intro hbufs
    obtain ⟨vq', i, hadd, hring, hids⟩ := hw.addChain_total hbufs.1 hbufs.2
    have hstep : Lib.exec step s (.addChain bufs) =
        ⟨vq', handedOut s.vq bufs :: s.chains, s.pending⟩ := by
      simp [Lib.exec, step, hbufs, hadd, getD_some]
    rw [hstep, Conserved] at hcons
    have hlen := hcons.length_eq
    have hnum := hring.num
    simp only [length_append, flatten_cons, hids, length_range] at hlen
    omega
  | kick head => trivial
  | complete head _ => trivial
  | getBuf => trivial

end Steps

/-- The descriptors of a new queue are linked one after another. -/
lemma virtqInit_seg (hn : n ≤ vqMaxSize) (m k : ℕ) (hk : k + (m + 1) = n) :
    Seg (virtqInit n).next k (List.range' k (m + 1)) 0 := by
  have hnext : ∀ i, (virtqInit n).next i = if i < n - 1 then (i + 1) % 2 ^ 16 else 0 := by
    intro i
    simp [Virtq.next, virtqInit, (show ¬ n > vqMaxSize by omega)]
  unfold vqMaxSize at hn
  induction m generalizing k with
  | zero =>
    refine ⟨rfl, ?_⟩
    rw [hnext, if_neg (by omega)]
    rfl
  | succ m ih =>
    refine ⟨rfl, ?_⟩
    rw [hnext, if_pos (by omega), Nat.mod_eq_of_lt (by omega)]
    exact ih (k + 1) (by omega)

lemma virtqInit_min (n : ℕ) : virtqInit n = virtqInit (min n vqMaxSize) := by
  by_cases hn : n > vqMaxSize
  · simp [virtqInit, hn, Nat.min_eq_right (Nat.le_of_lt hn), gt_iff_lt]
  · rw [Nat.min_eq_left (by omega)]

lemma sound_init (hn : 2 ≤ n) : Sound (.init n) := by
  obtain ⟨q, hq, hpos, hle⟩ : ∃ q, virtqInit n = virtqInit q ∧ 0 < q ∧ q ≤ vqMaxSize :=
    ⟨min n vqMaxSize, virtqInit_min n, by unfold vqMaxSize; omega, Nat.min_le_right _ _⟩
  have hnum : (virtqInit q).num = q := by
    simp [virtqInit, (show ¬ q > vqMaxSize by omega)]
  rw [Sys.init, hq]
  refine ⟨⟨List.range q, by rwa [hnum], by rwa [hnum], ?_, ?_, nofun, ?_⟩,
    ?_, ?_, nofun, nodup_nil, nofun⟩
  · have hseg := virtqInit_seg hle (q - 1) 0 (by omega)
    rw [range_eq_range']
    rwa [show q - 1 + 1 = q by omega] at hseg
  · rw [hnum, flatten_nil, append_nil]
  · intro i
    rw [hnum]
    simp only [Virtq.next, virtqInit, if_neg (show ¬ q > vqMaxSize by omega)]
    split_ifs
    · omega
    · exact hpos
  · exact Nat.two_pow_pos 16
  · rfl

/-- **Descriptors are conserved** along a run, and every operation keeps its promises, exactly if
no request is for more descriptors than are free. -/
theorem descriptors_conserved_iff {n : ℕ} (hn : 2 ≤ n) (ops : List Op) :
    ((∀ fs, fs <+: ops → Conserved (run step (.init n) fs)) ∧
        Along step Delivers (.init n) ops) ↔
      Along step Fits (.init n) ops := by
  have hkeep : ∀ s op, Sound s → Fits s op → Sound (exec step s op) := fun _ _ h => h.exec
  have hneed : ∀ s op, Sound s → Conserved (exec step s op) → Fits s op := fun _ _ h => h.fits
  have hstates := forall_prefix_iff_along (fun s ⟨⟨_, hw⟩, _⟩ => hw.conserved) hkeep hneed
    (sound_init hn) ops
  have hpromise := along_congr (fun s op h => h.delivers_iff op) hkeep (sound_init hn) ops
  rw [hstates, hpromise, and_self]

/-- With both descriptors of a queue in flight, the first of them is handed out again. -/
theorem not_conserved_thirdChain :
    (virtqAddChain (run step (.init 2) [.addChain [⟨0, 0, 0⟩], .addChain [⟨0, 0, 0⟩]]).vq
      [⟨0, 0, 0⟩]).2 = some 0 ∧
    0 ∈ (run step (.init 2) [.addChain [⟨0, 0, 0⟩], .addChain [⟨0, 0, 0⟩]]).chains.flatten ∧
    ¬ Conserved (run step (.init 2)
      [.addChain [⟨0, 0, 0⟩], .addChain [⟨0, 0, 0⟩], .addChain [⟨0, 0, 0⟩]]) := by
  decide

/-- A request of all descriptors after a completion. -/
theorem descriptors_conserved_iff_reuse :
    Conserved (run step (.init 3) [.addChain [⟨0, 0, 0⟩, ⟨0, 0, 2⟩], .kick 0, .complete 0 512,
      .getBuf, .addChain [⟨0, 0, 0⟩, ⟨0, 0, 2⟩, ⟨0, 0, 2⟩]]) :=
  ((descriptors_conserved_iff (by decide) [.addChain [⟨0, 0, 0⟩, ⟨0, 0, 2⟩], .kick 0,
    .complete 0 512, .getBuf, .addChain [⟨0, 0, 0⟩, ⟨0, 0, 2⟩, ⟨0, 0, 2⟩]]).2
    ⟨fun _ => by decide, trivial, trivial, trivial, fun _ => by decide, trivial⟩).1 _
    (List.prefix_refl _)

end Aurora.VirtioBlk
