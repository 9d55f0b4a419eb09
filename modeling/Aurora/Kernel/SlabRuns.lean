import Aurora.Kernel.SlabOps

/-!
# Histories of the kernel heap

Callers allocate and free objects and write to their own memory, in any order. After every
such history the objects they hold are disjoint and large enough, the free lists hold exactly
the other objects of the slab pages, and a slab page goes back to the page allocator exactly
when the last of its objects is freed.

## Main definitions

* `HeapState`, `Op`, `applyOp`, `runOps`: histories.
* `HeapInvariant`, `Returned`: what holds of a state, and of a call.
-/

namespace Aurora.Slab

open Lib Aurora.Buddy List

/-! ## Histories -/

/-- The heap and what its callers hold. -/
structure HeapState where
  heap : Heap
  held : List Obj

/-- What callers do. -/
inductive Op where
  | kmalloc (size : ℕ)
  | kfree (o : Obj)
  | store (a v : ℕ)
  deriving DecidableEq

/-- A word that may be written: it belongs to an object that is held, or to no slab page. -/
def Writable (r : HeapState) (a : ℕ) : Prop :=
  (∃ o ∈ r.held, o.addr ≤ a ∧ a < o.addr + o.capacity) ∨
    ∀ p ∈ getPageStruct r.heap.buddy a, (r.heap.page p).isSlab = false

instance (r : HeapState) (a : ℕ) : Decidable (Writable r a) :=
  inferInstanceAs (Decidable (_ ∨ _))

/-- One step. Freeing what is not held, or an object with the word that marks free objects,
and writing elsewhere are steps nobody takes. -/
def applyOp (r : HeapState) : Op → Option HeapState
  | .kmalloc size => do
    let (heap, ptr) ← kmalloc r.heap size
    match ptr with
    | none => some { r with heap }
    | some addr => some { heap, held := ⟨addr, size⟩ :: r.held }
  | .kfree o =>
    if o ∈ r.held ∧ r.heap.mem (o.addr + 8) ≠ slabFreeMagic then do
      let heap ← kfree r.heap o.addr
      some { heap, held := r.held.erase o }
    else some r
  | .store a v => if Writable r a then some { r with heap := r.heap.store a v } else some r

def runOps (r : HeapState) (ops : List Op) : Option HeapState := ops.foldlM applyOp r

/-- `slab_init`: no slab page, and empty lists. -/
def slabInit (buddy : PhysMem) (mem : ℕ → ℕ) : HeapState :=
  { heap := { buddy, mem, page := fun _ => {}, freeList := fun _ => 0 }, held := [] }

/-! ## The invariant of a run -/

variable {r r' : HeapState} {L L' F : ℕ → List ℕ} {others : List Block} {S : List ℕ}
  {h : Heap} {held : List Obj} {size : ℕ} {o : Obj}

/-- The heap is represented, and no slab page is without an object that is held. -/
structure RunRep (r : HeapState) (L : ℕ → List ℕ) (others : List Block) (S : List ℕ)
    (F : ℕ → List ℕ) : Prop where
  rep : SlabRep r.heap L others S F r.held
  used : ∀ p ∈ S, ∃ o ∈ r.held, pageOf o.addr = p

lemma runRep_slabInit {s : PhysMem} (hs : Rep s L others) (mem : ℕ → ℕ) :
    RunRep (slabInit s mem) L others [] fun _ => [] where
  rep := by
    constructor
    · exact hs
    · simp [slabInit]
    · simp
    · exact fun _ => rfl
    · simp [Slot]
    · simp [slabInit]
    · simp [slabInit]
    · simp [slabInit]
  used := by simp

/-- Taking an object keeps the pages in use, whichever page it comes from. -/
lemma used_cons {a : ℕ} (hused : ∀ p ∈ S, p = pageOf a ∨ ∃ o ∈ held, pageOf o.addr = p) :
    ∀ p ∈ S, ∃ o ∈ (⟨a, size⟩ : Obj) :: held, pageOf o.addr = p := by
  intro p hp
  rcases hused p hp with rfl | ⟨o, ho, hpage⟩
  · exact ⟨⟨a, size⟩, mem_cons_self, rfl⟩
  · exact ⟨o, mem_cons_of_mem _ ho, hpage⟩

/-- What a step leads to: pages that are given back are free. -/
def Stepped (S : List ℕ) (others : List Block) (r' : HeapState) : Prop :=
  ∃ L' S' F', (∀ p ∈ S, p ∉ S' → ∃ b ∈ freeBlocks L', p ∈ b.span) ∧ RunRep r' L' others S' F'

/-- A step after which the slab pages are slab pages as before. -/
lemma RunRep.stepped {S' : List ℕ} (hr : RunRep r L others S' F) (hS : S ⊆ S') :
    Stepped S others r :=
  ⟨L, S', F, fun _ hp hnot => absurd (hS hp) hnot, hr⟩

/-- **`kmalloc`** returns and keeps the invariant. -/
lemma RunRep.kmalloc (hr : RunRep r L others S F) (size : ℕ) :
    ∃ r', applyOp r (.kmalloc size) = some r' ∧ Stepped S others r' := by
  obtain ⟨h, held⟩ := r
  have hsame : Stepped S others ⟨h, held⟩ := hr.stepped (List.Subset.refl S)
  simp only [applyOp, Slab.kmalloc]
  by_cases hzero : size = 0
  · exact ⟨⟨h, held⟩, by simp [hzero], hsame⟩
  rw [if_neg hzero]
  by_cases hsmall : size ≤ pageSize
  · rw [if_pos hsmall]
    generalize hi : slabSizeToIndex size = idx
    have hidx : idx < 8 := hi ▸ (slabSizeToIndex_spec hsmall).1
    by_cases hempty : h.freeList idx = 0
    · have hnil := hr.rep.lists.freeList_eq_zero.1 hempty
      rcases hr.rep.grow hidx with hfail | ⟨h1, L1, p, hgrow, hrep1⟩
      · exact ⟨⟨h, held⟩, by simp [hempty, hfail], hsame⟩
      · -- the list is now the new page's, and it is not empty
        rw [hnil, append_nil] at hrep1
        obtain ⟨a, l, hal⟩ : ∃ a l, (slots idx p).reverse = a :: l := by
          refine exists_cons_of_ne_nil fun hlist => ?_
          have hlen := congrArg List.length hlist
          have := size_mul_objsPerPage hidx
          rw [length_reverse, length_slots] at hlen
          rw [hlen] at this
          simp [pageSize] at this
        have hmem : a ∈ slots idx p := mem_reverse.1 (hal ▸ mem_cons_self)
        have hhead : h1.freeList idx ≠ 0 := by
          intro h0
          have := hrep1.lists.freeList_eq_zero.1 h0
          simp [hal] at this
        obtain ⟨h2, hpop, hrep2⟩ := hrep1.pop (a := a) (l := l) hsmall (by simp [hi, hal])
        rw [hi] at hpop
        refine ⟨⟨h2, ⟨a, size⟩ :: held⟩, ?_, RunRep.stepped ⟨hrep2, ?_⟩ (subset_cons_self p S)⟩
        · simp [hempty, hgrow, hhead, hpop]
        · refine used_cons (forall_mem_cons.2 ⟨.inl (pageOf_slots hidx hmem).symm, ?_⟩)
          exact fun q hq => .inr (hr.used q hq)
    · obtain ⟨a, l, hal⟩ := exists_cons_of_ne_nil fun hnil =>
        hempty (hr.rep.lists.freeList_eq_zero.2 hnil)
      obtain ⟨h2, hpop, hrep2⟩ := hr.rep.pop (a := a) (l := l) hsmall (hi ▸ hal)
      rw [hi] at hpop
      refine ⟨⟨h2, ⟨a, size⟩ :: held⟩, ?_, RunRep.stepped ⟨hrep2, ?_⟩ (List.Subset.refl S)⟩
      · simp [hempty, hpop]
      · exact used_cons fun q hq => .inr (hr.used q hq)
  · rw [if_neg hsmall]
    by_cases hhuge : size > 2 ^ 64 - 1 - pageSize
    · rw [if_pos hhuge]
      exact ⟨⟨h, held⟩, rfl, hsame⟩
    rw [if_neg hhuge]
    by_cases horder : orderOf size > maxOrder
    · exact ⟨⟨h, held⟩, by simp [horder], hsame⟩
    rw [if_neg horder]
    rcases hr.rep.allocLarge (not_le.1 hsmall) (not_lt.1 horder) with hfail |
      ⟨h1, L1, a, halloc, hrep1⟩
    · exact ⟨⟨h, held⟩, by simp [hfail], hsame⟩
    · refine ⟨⟨h1, ⟨a, size⟩ :: held⟩, by simp [halloc],
        RunRep.stepped ⟨hrep1, ?_⟩ (List.Subset.refl S)⟩
      exact used_cons fun q hq => .inr (hr.used q hq)

/-- Pages other than the one of the freed object stay in use. -/
lemma RunRep.used_of_ne {p : ℕ} (hr : RunRep ⟨h, o :: held⟩ L others S F) (hp : p ∈ S)
    (hne : p ≠ pageOf o.addr) : ∃ o' ∈ held, pageOf o'.addr = p := by
  obtain ⟨o', ho', hpage⟩ := hr.used p hp
  rcases mem_cons.1 ho' with rfl | ho'
  · exact absurd hpage.symm hne
  · exact ⟨o', ho', hpage⟩

/-- **`kfree`** of the object `o` returns and keeps the invariant. -/
lemma RunRep.kfree (hr : RunRep ⟨h, o :: held⟩ L others S F)
    (hmagic : h.mem (o.addr + 8) ≠ slabFreeMagic) :
    ∃ h', Slab.kfree h o.addr = some h' ∧ Stepped S others ⟨h', held⟩ := by
  by_cases hsmall : o.size ≤ pageSize
  · have hbefore : SlabRep h L others S F (o :: held) := hr.rep
    have hslot := hbefore.small o mem_cons_self hsmall
    have hrep := hbefore.giveBack hsmall
    generalize hi : slabSizeToIndex o.size = idx at hslot hrep
    obtain ⟨hidx, hpage, hcache, hmem⟩ := hbefore.slot_page hslot
    have hstruct := getPageStruct_slots hidx hmem (hbefore.page_lt hpage)
    have hslab := (hbefore.isSlab _).2 hpage
    have hnull := slots_ne_zero hidx hmem
    set h1 := Slab.giveBack h idx (pageOf o.addr) o.addr with hh1
    obtain ⟨i, -, hcache1, hcount⟩ := hrep.cached _ hpage
    have hcaches : (h1.page (pageOf o.addr)).slabCache = some idx := by
      simp [hh1, Slab.giveBack, Heap.modifyPage, Heap.push, Heap.setFreeList, Heap.store, hcache]
    cases hcaches.symm.trans hcache1
    have hkfree : Slab.kfree h o.addr =
        if (h1.page (pageOf o.addr)).slabFreeCount ≥ objsPerPage idx then
          Slab.reclaim h1 idx (pageOf o.addr) else some h1 := by
      simp [Slab.kfree, slabFree, hnull, hstruct, hslab, hcache, hmagic, hh1]
    rw [hkfree, hcount]
    by_cases hall : (freeSlots held idx (pageOf o.addr)).length ≥ objsPerPage idx
    · -- all slots of the page are free
      rw [if_pos hall]
      have hunused := objsPerPage_le_freeSlots.1 hall
      obtain ⟨h2, L2, hreclaim, hrep2, hfree⟩ := hrep.reclaim hpage hcaches hunused
      refine ⟨h2, hreclaim, L2, S.erase (pageOf o.addr), _, ?_, hrep2, ?_⟩
      · intro p hp hnot
        obtain rfl : p = pageOf o.addr := by
          by_contra hne
          exact hnot ((mem_erase_of_ne hne).2 hp)
        exact hfree
      · intro p hp
        obtain ⟨hne, hp⟩ := hr.rep.nodup_pages.mem_erase_iff.1 hp
        exact hr.used_of_ne hp hne
    · rw [if_neg hall]
      refine ⟨h1, rfl, RunRep.stepped ⟨hrep, fun p hp => ?_⟩ (List.Subset.refl S)⟩
      by_cases hne : p = pageOf o.addr
      · -- some slot of the page is held
        subst hne
        rw [ge_iff_le, objsPerPage_le_freeSlots] at hall
        push Not at hall
        obtain ⟨a, ha, hheld⟩ := hall
        obtain ⟨o', ho', rfl⟩ := mem_map.1 hheld
        exact ⟨o', ho', pageOf_slots hidx ha⟩
      · exact hr.used_of_ne hp hne
  · have hlarge := not_le.1 hsmall
    obtain ⟨h1, _, hfree, hrep1⟩ := hr.rep.freeLarge hlarge
    refine ⟨h1, hfree, RunRep.stepped ⟨hrep1, fun p hp => ?_⟩ (List.Subset.refl S)⟩
    refine hr.used_of_ne hp ?_
    rintro rfl
    exact hr.rep.page_not_mem_block hp mem_cons_self hlarge o.block.base_mem_span

/-- A write that may be made does not touch the link of a free object. -/
lemma RunRep.store {a v : ℕ} (hr : RunRep r L others S F) (hw : Writable r a) :
    RunRep { r with heap := r.heap.store a v } L others S F := by
  have hout : ∀ i, a ∉ F i := by
    intro i ha
    obtain ⟨hslot, hfree⟩ := (hr.rep.mem_free i a).1 ha
    rcases hw with ⟨o, ho, hle, hlt⟩ | hno
    · have hne : o.addr ≠ a := by
        rintro rfl
        exact hfree (mem_map_of_mem ho)
      by_cases hsmall : o.size ≤ pageSize
      · rw [Obj.capacity, if_pos hsmall] at hlt
        exact hr.rep.free_outside (hr.rep.small o ho hsmall) ha hne.symm ⟨hle, hlt⟩
      · obtain ⟨hpage, -, -⟩ := hr.rep.free_page ha
        refine hr.rep.page_not_mem_block hpage ho (not_le.1 hsmall) ?_
        exact hr.rep.mem_block ho (not_le.1 hsmall) hle hlt
    · obtain ⟨hi, hpage, -, hmem⟩ := hr.rep.slot_page hslot
      have := hno _ (getPageStruct_slots hi hmem (hr.rep.page_lt hpage))
      simp [(hr.rep.isSlab _).2 hpage] at this
  refine ⟨⟨hr.rep.buddy, hr.rep.isSlab, hr.rep.cached, ?_, hr.rep.mem_free,
    hr.rep.small, hr.rep.large, hr.rep.held_nodup⟩, hr.used⟩
  refine hr.rep.lists.congr rfl fun i b hb => Function.update_of_ne ?_ _ _
  rintro rfl
  exact hout i hb

/-- Every step returns and keeps the invariant. -/
lemma RunRep.applyOp (hr : RunRep r L others S F) (op : Op) :
    ∃ r', applyOp r op = some r' ∧ Stepped S others r' := by
  cases op with
  | kmalloc size => exact hr.kmalloc size
  | kfree o =>
    by_cases hcond : o ∈ r.held ∧ r.heap.mem (o.addr + 8) ≠ slabFreeMagic
    · have hperm := perm_cons_erase hcond.1
      have hr' : RunRep ⟨r.heap, o :: r.held.erase o⟩ L others S F := by
        refine ⟨hr.rep.perm hperm, fun p hp => ?_⟩
        obtain ⟨o', ho', hpage⟩ := hr.used p hp
        exact ⟨o', hperm.mem_iff.1 ho', hpage⟩
      obtain ⟨h', hfree, hstep⟩ := hr'.kfree hcond.2
      exact ⟨⟨h', r.held.erase o⟩, by simp [Slab.applyOp, hcond, hfree], hstep⟩
    · exact ⟨r, if_neg hcond, hr.stepped (List.Subset.refl S)⟩
  | store a v =>
    by_cases hw : Writable r a
    · exact ⟨_, if_pos hw, (hr.store hw).stepped (List.Subset.refl S)⟩
    · exact ⟨r, if_neg hw, hr.stepped (List.Subset.refl S)⟩

lemma RunRep.runOps (hr : RunRep r L others S F) (ops : List Op) :
    ∃ r' L' S' F', runOps r ops = some r' ∧ RunRep r' L' others S' F' := by
  induction ops generalizing r L S F with
  | nil => exact ⟨r, L, S, F, rfl, hr⟩
  | cons op ops ih =>
    obtain ⟨_, hop, _, _, _, -, hr1⟩ := hr.applyOp op
    obtain ⟨r', L', S', F', hrest, hr'⟩ := ih hr1
    exact ⟨r', L', S', F', by simpa [Slab.runOps, foldlM_cons, hop] using hrest, hr'⟩

/-! ## The invariant in its own terms -/

/-- Some byte of the object lies in the page frame. -/
def Obj.Touches (o : Obj) (p : ℕ) : Prop := ∃ x, o.addr ≤ x ∧ x < o.addr + o.capacity ∧ pageOf x = p

/-- The page frame is a slab page of the cache. -/
def Heap.SlabPageOf (h : Heap) (i p : ℕ) : Prop :=
  (h.page p).isSlab = true ∧ (h.page p).slabCache = some i

/-- What holds of the heap, with `L` on the lists of the page allocator and `F` on those of the
caches. -/
structure HeapInvariant (r : HeapState) (L F : ℕ → List ℕ) : Prop where
  /-- An object has the bytes that were asked for. -/
  large_enough : ∀ o ∈ r.held, o.size ≤ o.capacity
  disjoint : r.held.Pairwise fun o o' =>
    o.addr + o.capacity ≤ o'.addr ∨ o'.addr + o'.capacity ≤ o.addr
  buddy_lists : FreeLists r.heap.buddy L
  /-- The objects lie in managed pages that are on no list of the page allocator. -/
  off_lists : ∀ o ∈ r.held, physMemBase ≤ o.addr ∧ ∀ p, o.Touches p →
    p < r.heap.buddy.totalPhysPages ∧ ∀ b ∈ freeBlocks L, p ∉ b.span
  /-- Following the list of a cache ends and meets no object twice. -/
  acyclic : ∀ i < 8, IsList (link r.heap.mem) (ptr (r.heap.freeList i)) (F i) ∧ (F i).Nodup
  /-- It holds exactly the objects of the cache's slab pages that nobody holds. -/
  mem_free : ∀ i < 8, ∀ a, a ∈ F i ↔
    (∃ p, r.heap.SlabPageOf i p ∧ a ∈ slots i p) ∧ a ∉ r.held.map Obj.addr
  cache_lt : ∀ p, (r.heap.page p).isSlab = true → ∃ i < 8, r.heap.SlabPageOf i p
  count : ∀ i < 8, ∀ p, r.heap.SlabPageOf i p →
    (r.heap.page p).slabFreeCount = ((F i).filter fun a => pageOf a = p).length

/-- A slab page is free after a step exactly if no object in it is held any more, and as long
as it is a slab page there is one. -/
def Returned (r r' : HeapState) (L' : ℕ → List ℕ) : Prop :=
  ∀ p, (r.heap.page p).isSlab = true → (∃ o ∈ r.held, o.Touches p) ∧
    ((∃ b ∈ freeBlocks L', p ∈ b.span) ↔ ∀ o ∈ r'.held, ¬ o.Touches p)

/-- The frames an object touches: its slab page, or those of its block. -/
lemma SlabRep.touches_cases {p : ℕ} (hr : SlabRep h L others S F held) (ho : o ∈ held)
    (ht : o.Touches p) : (o.size ≤ pageSize ∧ p ∈ S ∧ pageOf o.addr = p) ∨
      (pageSize < o.size ∧ p ∈ o.block.span) := by
  obtain ⟨x, hle, hlt, rfl⟩ := ht
  by_cases hsmall : o.size ≤ pageSize
  · obtain ⟨hi, hpage, -, hmem⟩ := hr.slot_page (hr.small o ho hsmall)
    rw [Obj.capacity, if_pos hsmall] at hlt
    have hwithin := slots_within hi hmem
    have hx : pageOf x = pageOf o.addr := pageOf_eq (by omega) (by omega)
    rw [hx]
    exact .inl ⟨hsmall, hpage, rfl⟩
  · exact .inr ⟨not_le.1 hsmall, hr.mem_block ho (not_le.1 hsmall) hle hlt⟩

lemma Obj.touches_base (o : Obj) : o.Touches (pageOf o.addr) := by
  refine ⟨o.addr, le_rfl, Nat.lt_add_of_pos_right ?_, rfl⟩
  unfold Obj.capacity
  split_ifs
  · exact lt_of_lt_of_le (by decide) (le_slabIndexToSize _)
  · exact Nat.mul_pos (by decide) (Nat.two_pow_pos _)

/-- A page frame that an object touches is in a block that was handed out. -/
lemma SlabRep.exists_block {p : ℕ} (hr : SlabRep h L others S F held) (ho : o ∈ held)
    (ht : o.Touches p) : ∃ b ∈ pageBlocks S ++ largeBlocks held ++ others, p ∈ b.span := by
  rcases hr.touches_cases ho ht with ⟨-, hp, -⟩ | ⟨hlarge, hp⟩
  · exact ⟨⟨p, 0⟩, by simp [mem_pageBlocks hp], Block.base_mem_span _⟩
  · exact ⟨o.block, by simp [mem_largeBlocks ho hlarge], hp⟩

/-- Objects at different addresses do not overlap. -/
lemma SlabRep.disjoint {o' : Obj} (hr : SlabRep h L others S F held) (ho : o ∈ held)
    (ho' : o' ∈ held) (hne : o.addr ≠ o'.addr) :
    o.addr + o.capacity ≤ o'.addr ∨ o'.addr + o'.capacity ≤ o.addr := by
  by_contra hover
  obtain ⟨x, hx, hx'⟩ : ∃ x, (o.addr ≤ x ∧ x < o.addr + o.capacity) ∧
      (o'.addr ≤ x ∧ x < o'.addr + o'.capacity) := by
    have htouch := o.touches_base
    have htouch' := o'.touches_base
    refine ⟨max o.addr o'.addr, ⟨le_max_left _ _, ?_⟩, le_max_right _ _, ?_⟩
    · obtain ⟨y, hy⟩ := htouch
      omega
    · obtain ⟨y, hy⟩ := htouch'
      omega
  have ht : o.Touches (pageOf x) := ⟨x, hx.1, hx.2, rfl⟩
  have ht' : o'.Touches (pageOf x) := ⟨x, hx'.1, hx'.2, rfl⟩
  rcases hr.touches_cases ho ht with ⟨hsmall, hp, -⟩ | ⟨hlarge, hp⟩
  · rcases hr.touches_cases ho' ht' with ⟨hsmall', -, -⟩ | ⟨hlarge', hp'⟩
    · -- two slots
      have := hr.slots_apart (hr.small o ho hsmall) (hr.small o' ho' hsmall') hne
      rw [Obj.capacity, if_pos hsmall, Obj.capacity, if_pos hsmall'] at hover
      exact hover this
    · exact hr.page_not_mem_block hp ho' hlarge' hp'
  · rcases hr.touches_cases ho' ht' with ⟨-, hp', -⟩ | ⟨hlarge', hp'⟩
    · exact hr.page_not_mem_block hp' ho hlarge hp
    · -- two blocks that share a page frame are one, and have one address
      have heq := hr.buddy.tiles.eq_of_mem_span
        (mem_append_right _ (by simp [mem_largeBlocks ho hlarge]))
        (mem_append_right _ (by simp [mem_largeBlocks ho' hlarge'])) hp hp'
      have hbase : pageOf o.addr = pageOf o'.addr := congrArg Block.base heq
      rw [(hr.large o ho hlarge).1, (hr.large o' ho' hlarge').1, hbase] at hne
      exact hne rfl

lemma RunRep.slabPageOf_iff (hr : RunRep r L others S F) {i p : ℕ} :
    r.heap.SlabPageOf i p ↔ p ∈ S ∧ (r.heap.page p).slabCache = some i := by
  rw [Heap.SlabPageOf, hr.rep.isSlab]

lemma RunRep.heapInvariant (hr : RunRep r L others S F) : HeapInvariant r L F where
  large_enough := by
    intro o ho
    unfold Obj.capacity
    split_ifs with hsmall
    · exact (slabSizeToIndex_spec hsmall).2
    · exact orderOf_spec (hr.rep.large o ho (not_le.1 hsmall)).2
  disjoint := (pairwise_map.1 hr.rep.held_nodup).imp_of_mem hr.rep.disjoint
  buddy_lists := hr.rep.buddy.lists
  off_lists := by
    intro o ho
    constructor
    · by_cases hsmall : o.size ≤ pageSize
      · obtain ⟨hi, -, -, hmem⟩ := hr.rep.slot_page (hr.rep.small o ho hsmall)
        have := (slots_within hi hmem).1
        exact (Nat.le_add_right _ _).trans this
      · rw [(hr.rep.large o ho (not_le.1 hsmall)).1]
        exact Nat.le_add_right _ _
    · intro p ht
      obtain ⟨b, hb, hp⟩ := hr.rep.exists_block ho ht
      refine ⟨hr.rep.buddy.tiles.span_subset (mem_append_right _ hb) hp, fun c hc hpc => ?_⟩
      exact ((hr.rep.buddy.covered_iff p).1 ⟨c, hc, hpc⟩).2.2 b hb hp
  acyclic i _ := ⟨hr.rep.lists i, hr.rep.nodup i⟩
  mem_free i _ a := by
    simp only [hr.rep.mem_free, Slot, hr.slabPageOf_iff, and_assoc]
  cache_lt p hp := by
    obtain ⟨i, hi, hcache, -⟩ := hr.rep.cached p ((hr.rep.isSlab p).1 hp)
    exact ⟨i, hi, hp, hcache⟩
  count := by
    intro i hi p hp
    obtain ⟨hpS, hcache⟩ := hr.slabPageOf_iff.1 hp
    obtain ⟨j, -, hcache', hcount⟩ := hr.rep.cached p hpS
    cases hcache.symm.trans hcache'
    rw [hcount]
    refine List.Perm.length_eq ((perm_ext_iff_of_nodup ((nodup_slots i p).filter _)
      ((hr.rep.nodup i).filter _)).2 fun a => ?_)
    have hslots : a ∈ slots i p ↔ Slot r.heap S i a ∧ pageOf a = p := by
      constructor
      · exact fun ha => ⟨⟨p, hpS, hcache, ha⟩, pageOf_slots hi ha⟩
      · rintro ⟨hslot, rfl⟩
        exact (hr.rep.slot_page hslot).2.2.2
    rw [← freeSlots, mem_freeSlots, mem_filter, hr.rep.mem_free, hslots, decide_eq_true_iff]
    exact and_right_comm

lemma RunRep.returned {S' : List ℕ} {F' : ℕ → List ℕ} (hr : RunRep r L others S F)
    (hr' : RunRep r' L' others S' F')
    (hback : ∀ p ∈ S, p ∉ S' → ∃ b ∈ freeBlocks L', p ∈ b.span) : Returned r r' L' := by
  intro p hslab
  have hp := (hr.rep.isSlab p).1 hslab
  refine ⟨?_, ?_, ?_⟩
  · obtain ⟨o, ho, rfl⟩ := hr.used p hp
    exact ⟨o, ho, o.touches_base⟩
  · rintro ⟨b, hb, hpb⟩ o ho ht
    exact ((hr'.heapInvariant.off_lists o ho).2 p ht).2 b hb hpb
  · intro hno
    refine hback p hp fun hp' => ?_
    obtain ⟨o, ho, rfl⟩ := hr'.used p hp'
    exact hno o ho o.touches_base

/-- **The kernel heap** over any history: all calls return, the invariant holds, and the next
step gives a slab page back exactly if it frees the last object of the page. -/
theorem runOps_heapInvariant {s : PhysMem} (hs : Rep s L others) (mem : ℕ → ℕ) (ops : List Op)
    (op : Op) :
    ∃ r r' L F L' F', runOps (slabInit s mem) ops = some r ∧ applyOp r op = some r' ∧
      HeapInvariant r L F ∧ HeapInvariant r' L' F' ∧ Returned r r' L' := by
  obtain ⟨r, L1, _, F1, hrun, hr⟩ := (runRep_slabInit hs mem).runOps ops
  obtain ⟨r', hop, L2, _, F2, hback, hr'⟩ := hr.applyOp op
  exact ⟨r, r', L1, F1, L2, F2, hrun, hop, hr.heapInvariant, hr'.heapInvariant,
    hr.returned hr' hback⟩

/-- An allocator with one page, of which a small object is taken and given back. -/
theorem runOps_heapInvariant_onePage :
    ∃ r r' L F L' F', runOps (slabInit onePage fun _ => 0) [.kmalloc 100, .kmalloc 5000] = some r ∧
      applyOp r (.kfree ⟨0x100F80, 100⟩) = some r' ∧
      HeapInvariant r L F ∧ HeapInvariant r' L' F' ∧ Returned r r' L' :=
  runOps_heapInvariant rep_onePage (fun _ => 0) [.kmalloc 100, .kmalloc 5000]
    (.kfree ⟨0x100F80, 100⟩)

end Aurora.Slab
