import Mathlib.Tactic.IntervalCases
import Aurora.Kernel.BuddyOps
import Aurora.Kernel.SlabLists

/-!
# What the kernel heap represents

A slab page is cut into slots of the size of its cache. `SlabRep` ties the heap to the pages
`S` of the slab allocator, the free lists `F` and the objects `held` by callers: the slots
that are not held are on the lists, the counts in the descriptors are the numbers of free
slots, and the page allocator has handed out the slab pages, the large objects and whatever
others hold.

## Main definitions

* `slots`: the addresses of the objects of a slab page.
* `SlabRep`: the representation invariant.
-/

namespace Aurora.Slab

open Lib Aurora.Buddy List

/-! ## Slots -/

/-- The addresses of the objects in the slab page `p` of the cache `idx`. -/
def slots (idx p : ℕ) : List ℕ :=
  (List.range (objsPerPage idx)).map fun k => pfnToPhys p + k * slabIndexToSize idx

/-- The page frame of an address. -/
def pageOf (a : ℕ) : ℕ := (a - physMemBase) / pageSize

lemma size_mul_objsPerPage {idx : ℕ} (h : idx < 8) :
    objsPerPage idx * slabIndexToSize idx = pageSize := by
  interval_cases idx <;> rfl

lemma le_slabIndexToSize (idx : ℕ) : 32 ≤ slabIndexToSize idx := by
  have := Nat.two_pow_pos idx
  unfold slabIndexToSize
  omega

lemma mem_slots {idx p a : ℕ} :
    a ∈ slots idx p ↔ ∃ k < objsPerPage idx, pfnToPhys p + k * slabIndexToSize idx = a := by
  simp [slots]

variable {idx p q a b : ℕ}

/-- An object lies in its page. -/
lemma slots_within (hidx : idx < 8) (ha : a ∈ slots idx p) :
    pfnToPhys p ≤ a ∧ a + slabIndexToSize idx ≤ pfnToPhys p + pageSize := by
  obtain ⟨k, hk, rfl⟩ := mem_slots.1 ha
  have hle : (k + 1) * slabIndexToSize idx ≤ objsPerPage idx * slabIndexToSize idx :=
    Nat.mul_le_mul_right _ hk
  rw [size_mul_objsPerPage hidx, Nat.succ_mul] at hle
  omega

/-- Two objects of a page do not overlap. -/
lemma slots_apart (ha : a ∈ slots idx p) (hb : b ∈ slots idx p) (hne : a ≠ b) :
    a + slabIndexToSize idx ≤ b ∨ b + slabIndexToSize idx ≤ a := by
  obtain ⟨j, -, rfl⟩ := mem_slots.1 ha
  obtain ⟨k, -, rfl⟩ := mem_slots.1 hb
  have hjk : j ≠ k := by
    rintro rfl
    exact hne rfl
  rcases Nat.lt_or_gt_of_ne hjk with hlt | hlt
  · have := Nat.mul_le_mul_right (slabIndexToSize idx) (Nat.succ_le_of_lt hlt)
    rw [Nat.succ_mul] at this
    omega
  · have := Nat.mul_le_mul_right (slabIndexToSize idx) (Nat.succ_le_of_lt hlt)
    rw [Nat.succ_mul] at this
    omega

lemma nodup_slots (idx p : ℕ) : (slots idx p).Nodup := by
  refine List.Nodup.map (fun j k hjk => ?_) nodup_range
  have hpos : 0 < slabIndexToSize idx := lt_of_lt_of_le (by decide) (le_slabIndexToSize idx)
  exact Nat.eq_of_mul_eq_mul_right hpos (Nat.add_left_cancel hjk)

lemma length_slots (idx p : ℕ) : (slots idx p).length = objsPerPage idx := by
  simp [slots]

lemma pageOf_eq (hle : pfnToPhys p ≤ a) (hlt : a < pfnToPhys p + pageSize) : pageOf a = p := by
  simp only [pageOf, pfnToPhys, pageSize] at *
  omega

lemma pageOf_slots (hidx : idx < 8) (ha : a ∈ slots idx p) : pageOf a = p := by
  have := slots_within hidx ha
  have := le_slabIndexToSize idx
  exact pageOf_eq (by omega) (by omega)

lemma pageOf_pfnToPhys (p : ℕ) : pageOf (pfnToPhys p) = p :=
  pageOf_eq le_rfl (by simp [pageSize])

lemma slots_ne_zero (hidx : idx < 8) (ha : a ∈ slots idx p) : a ≠ 0 := by
  have := (slots_within hidx ha).1
  simp only [pfnToPhys, physMemBase] at this
  omega

/-- The descriptor of an address of a managed page frame. -/
lemma getPageStruct_eq {s : PhysMem} (hle : pfnToPhys p ≤ a) (hlt : a < pfnToPhys p + pageSize)
    (hp : p < s.totalPhysPages) : getPageStruct s a = some p := by
  have hbase : ¬ a < physMemBase := by
    simp only [pfnToPhys] at hle
    omega
  have hpage : (a - physMemBase) / pageSize = p := pageOf_eq hle hlt
  simp [getPageStruct, physToPfn, hbase, hpage, hp]

lemma getPageStruct_slots {s : PhysMem} (hidx : idx < 8) (ha : a ∈ slots idx p)
    (hp : p < s.totalPhysPages) : getPageStruct s a = some p := by
  have := slots_within hidx ha
  have := le_slabIndexToSize idx
  exact getPageStruct_eq (by omega) (by omega) hp

/-! ## Sizes -/

/-- The cache for a small size has objects that are large enough. -/
lemma slabSizeToIndex_spec {size : ℕ} (h : size ≤ pageSize) :
    slabSizeToIndex size < 8 ∧ size ≤ slabIndexToSize (slabSizeToIndex size) := by
  simp only [pageSize] at h
  unfold slabSizeToIndex slabIndexToSize
  split_ifs <;> omega

lemma orderLoop_spec {n steps order : ℕ} (hsteps : maxOrder < order + steps)
    (hle : orderLoop n steps order ≤ maxOrder) : n ≤ 2 ^ orderLoop n steps order := by
  induction steps generalizing order with
  | zero =>
    rw [orderLoop] at hle
    omega
  | succ steps ih =>
    rw [orderLoop] at hle ⊢
    by_cases hcond : 2 ^ order < n ∧ order ≤ maxOrder
    · rw [if_pos hcond] at hle ⊢
      exact ih (by omega) hle
    · rw [if_neg hcond] at hle ⊢
      omega

/-- The block for a large size is large enough. -/
lemma orderOf_spec {size : ℕ} (h : orderOf size ≤ maxOrder) :
    size ≤ pageSize * 2 ^ orderOf size := by
  have hpages : (size + pageSize - 1) / pageSize ≤ 2 ^ orderOf size :=
    orderLoop_spec (by simp [maxOrder]) h
  simp only [pageSize] at *
  omega

/-! ## The invariant -/

/-- What a caller holds: the address and the size it asked for. -/
structure Obj where
  addr : ℕ
  size : ℕ
  deriving DecidableEq

/-- The bytes reserved for an object. -/
def Obj.capacity (o : Obj) : ℕ :=
  if o.size ≤ pageSize then slabIndexToSize (slabSizeToIndex o.size)
  else pageSize * 2 ^ orderOf o.size

/-- The block of a large object. -/
def Obj.block (o : Obj) : Block := ⟨pageOf o.addr, orderOf o.size⟩

/-- The blocks of the large objects among those held. -/
def largeBlocks (held : List Obj) : List Block :=
  (held.filter fun o => pageSize < o.size).map Obj.block

/-- The slab pages as blocks. -/
def pageBlocks (S : List ℕ) : List Block := S.map (Block.mk · 0)

/-- The address is that of an object of cache `idx`. -/
def Slot (h : Heap) (S : List ℕ) (idx a : ℕ) : Prop :=
  ∃ p ∈ S, (h.page p).slabCache = some idx ∧ a ∈ slots idx p

/-- The slots of a page that nobody holds. -/
def freeSlots (held : List Obj) (idx p : ℕ) : List ℕ :=
  (slots idx p).filter fun a => a ∉ held.map Obj.addr

/-- The heap: slab pages `S`, free lists `F`, objects `held`; the page allocator has the free
lists `L`, and `others` hold blocks of their own. -/
structure SlabRep (h : Heap) (L : ℕ → List ℕ) (others : List Block) (S : List ℕ)
    (F : ℕ → List ℕ) (held : List Obj) : Prop where
  buddy : Rep h.buddy L (pageBlocks S ++ largeBlocks held ++ others)
  isSlab : ∀ p, (h.page p).isSlab = true ↔ p ∈ S
  cached : ∀ p ∈ S, ∃ idx < 8, (h.page p).slabCache = some idx ∧
    (h.page p).slabFreeCount = (freeSlots held idx p).length
  lists : Lists h F
  mem_free : ∀ i a, a ∈ F i ↔ Slot h S i a ∧ a ∉ held.map Obj.addr
  small : ∀ o ∈ held, o.size ≤ pageSize → Slot h S (slabSizeToIndex o.size) o.addr
  large : ∀ o ∈ held, pageSize < o.size → o.addr = pfnToPhys (pageOf o.addr) ∧
    orderOf o.size ≤ maxOrder
  held_nodup : (held.map Obj.addr).Nodup

variable {h h' : Heap} {L F : ℕ → List ℕ} {others : List Block} {S : List ℕ} {held : List Obj}
  {i j : ℕ} {o : Obj}

lemma Slot.congr (hc : ∀ p, (h'.page p).slabCache = (h.page p).slabCache) :
    Slot h' S i a ↔ Slot h S i a := by
  simp only [Slot, hc]

lemma mem_freeSlots : a ∈ freeSlots held i p ↔ a ∈ slots i p ∧ a ∉ held.map Obj.addr := by
  simp [freeSlots]

/-- All slots of a page are counted as free exactly if nobody holds one. -/
lemma objsPerPage_le_freeSlots :
    objsPerPage i ≤ (freeSlots held i p).length ↔ ∀ a ∈ slots i p, a ∉ held.map Obj.addr := by
  rw [← length_slots i p, freeSlots, (length_filter_le _ _).ge_iff_eq, length_filter_eq_length_iff]
  simp

lemma freeSlots_cons (o : Obj) (held : List Obj) (i p : ℕ) :
    freeSlots (o :: held) i p = (freeSlots held i p).erase o.addr := by
  rw [freeSlots, freeSlots, List.Nodup.erase_eq_filter ((nodup_slots i p).filter _), filter_filter]
  refine filter_congr fun a _ => ?_
  by_cases h : a = o.addr <;> simp [h]

lemma freeSlots_cons_of_not_mem (h : o.addr ∉ slots i p) :
    freeSlots (o :: held) i p = freeSlots held i p := by
  rw [freeSlots_cons, erase_of_not_mem fun hmem => h (mem_freeSlots.1 hmem).1]

lemma mem_pageBlocks (hp : p ∈ S) : ⟨p, 0⟩ ∈ pageBlocks S := mem_map_of_mem hp

lemma mem_largeBlocks (ho : o ∈ held) (hsize : pageSize < o.size) : o.block ∈ largeBlocks held :=
  mem_map_of_mem (mem_filter.2 ⟨ho, by simpa using hsize⟩)

lemma largeBlocks_cons_small (hsize : o.size ≤ pageSize) :
    largeBlocks (o :: held) = largeBlocks held := by
  simp [largeBlocks, not_lt.2 hsize]

lemma largeBlocks_cons_large (hsize : pageSize < o.size) :
    largeBlocks (o :: held) = o.block :: largeBlocks held := by
  simp [largeBlocks, hsize]

namespace SlabRep

section

variable (hr : SlabRep h L others S F held)

include hr

/-- A page that was handed out to the slab allocator is managed. -/
lemma page_lt (hp : p ∈ S) : p < h.buddy.totalPhysPages := by
  have hb : ⟨p, 0⟩ ∈ freeBlocks L ++ (pageBlocks S ++ largeBlocks held ++ others) := by
    simp [mem_pageBlocks hp]
  exact hr.buddy.tiles.span_subset hb (Block.base_mem_span _)

/-- A large object has no page frame in common with a slab page. -/
lemma page_not_mem_block (hp : p ∈ S) (ho : o ∈ held)
    (hsize : pageSize < o.size) : p ∉ o.block.span := by
  intro hmem
  have htiles := (pairwise_append.1 hr.buddy.tiles.pairwise_disjoint).2.1
  have hdisj := (pairwise_append.1 (pairwise_append.1 htiles).1).2.2 ⟨p, 0⟩
    (mem_pageBlocks hp) o.block (mem_largeBlocks ho hsize)
  exact hdisj (Block.base_mem_span _) hmem

lemma nodup (i : ℕ) : (F i).Nodup := (hr.lists i).nodup

lemma nodup_pages : S.Nodup := by
  have hbases := hr.buddy.tiles.nodup_map_base
  simp only [map_append, pageBlocks, map_map] at hbases
  have := (nodup_append.1 (nodup_append.1 (nodup_append.1 hbases).2.1).1).1
  simpa [Function.comp_def] using this

lemma slot_page (ha : Slot h S i a) :
    i < 8 ∧ pageOf a ∈ S ∧ (h.page (pageOf a)).slabCache = some i ∧ a ∈ slots i (pageOf a) := by
  obtain ⟨p, hp, hcache, hslot⟩ := ha
  obtain ⟨j, hj, hcache', -⟩ := hr.cached p hp
  cases hcache.symm.trans hcache'
  rw [pageOf_slots hj hslot]
  exact ⟨hj, hp, hcache, hslot⟩

/-- Two slots do not overlap, whatever their caches. -/
lemma slots_apart (ha : Slot h S i a) (hb : Slot h S j b)
    (hne : a ≠ b) : a + slabIndexToSize i ≤ b ∨ b + slabIndexToSize j ≤ a := by
  obtain ⟨hi, -, hcachea, hslota⟩ := hr.slot_page ha
  obtain ⟨hj, -, hcacheb, hslotb⟩ := hr.slot_page hb
  by_cases hpage : pageOf a = pageOf b
  · rw [hpage] at hcachea hslota
    cases hcachea.symm.trans hcacheb
    exact Slab.slots_apart hslota hslotb hne
  · have hwa := slots_within hi hslota
    have hwb := slots_within hj hslotb
    rcases Nat.lt_or_gt_of_ne hpage with hlt | hlt
    all_goals
      have := Nat.mul_le_mul_right pageSize (Nat.succ_le_of_lt hlt)
      rw [Nat.succ_mul] at this
      simp only [pfnToPhys] at hwa hwb
      omega

lemma slot_unique (ha : Slot h S i a) (hb : Slot h S j a) : i = j :=
  Option.some.inj ((hr.slot_page ha).2.2.1.symm.trans (hr.slot_page hb).2.2.1)

/-- The object that is `a` does not reach into another object that is free. -/
lemma free_outside (ha : Slot h S i a) (hb : b ∈ F j)
    (hne : b ≠ a) : ¬ (a ≤ b ∧ b < a + slabIndexToSize i) := by
  have := hr.slots_apart ha ((hr.mem_free j b).1 hb).1 hne.symm
  have := le_slabIndexToSize j
  omega

/-- A free object lies in a slab page. -/
lemma free_page (hb : b ∈ F j) :
    pageOf b ∈ S ∧ pfnToPhys (pageOf b) ≤ b ∧ b < pfnToPhys (pageOf b) + pageSize := by
  obtain ⟨hj, hpage, -, hslot⟩ := hr.slot_page ((hr.mem_free j b).1 hb).1
  have := slots_within hj hslot
  have := le_slabIndexToSize j
  exact ⟨hpage, by omega, by omega⟩

/-- The page frame of a byte of a large object is one of its block. -/
lemma mem_block (ho : o ∈ held) (hsize : pageSize < o.size)
    (hle : o.addr ≤ a) (hlt : a < o.addr + o.capacity) : pageOf a ∈ o.block.span := by
  obtain ⟨haddr, -⟩ := hr.large o ho hsize
  rw [Obj.capacity, if_neg (not_le.2 hsize)] at hlt
  rw [Block.mem_span]
  generalize hbase : pageOf o.addr = q at haddr
  simp only [Obj.block, hbase]
  simp only [haddr, pfnToPhys, pageOf, pageSize] at *
  omega

/-- The order in which the callers are listed does not matter. -/
lemma perm {held' : List Obj} (hp : held.Perm held') : SlabRep h L others S F held' := by
  have haddr : ∀ a, a ∈ held'.map Obj.addr ↔ a ∈ held.map Obj.addr :=
    fun a => (hp.map Obj.addr).symm.mem_iff
  have hslots : ∀ i p, freeSlots held' i p = freeSlots held i p := by
    intro i p
    refine filter_congr fun a _ => ?_
    simp only [haddr]
  constructor
  · refine hr.buddy.perm (List.Perm.append_right _ (List.Perm.append_left _ ?_))
    exact (hp.filter _).map _
  · exact hr.isSlab
  · intro p hmem
    obtain ⟨i, hi, hcache, hcount⟩ := hr.cached p hmem
    exact ⟨i, hi, hcache, by rw [hslots, hcount]⟩
  · exact hr.lists
  · intro i a
    rw [haddr, hr.mem_free]
  · exact fun o ho => hr.small o (hp.mem_iff.2 ho)
  · exact fun o ho => hr.large o (hp.mem_iff.2 ho)
  · exact (hp.map Obj.addr).nodup_iff.1 hr.held_nodup

end

end SlabRep

end Aurora.Slab
