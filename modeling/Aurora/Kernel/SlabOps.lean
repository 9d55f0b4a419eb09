import Aurora.Kernel.BuddyResidue
import Aurora.Kernel.SlabRep

/-!
# The operations of the kernel heap keep its invariant

`kmalloc` of a small size is `slab_grow`, when the list is empty, and taking the first object;
`kfree` of a small object is pushing it and, when the page is unused, giving the page back.
There is one lemma for each of these, and one each for the large sizes and for a caller's own
writes.

## Main definitions

* `SlabRep.grow`, `SlabRep.pop`, `SlabRep.allocLarge`: allocating.
* `SlabRep.giveBack`, `SlabRep.reclaim`, `SlabRep.freeLarge`: freeing.
-/

namespace Aurora.Slab

open Lib Aurora.Buddy Function List Option Heap

variable {h h' : Heap} {L F : ℕ → List ℕ} {others : List Block} {S : List ℕ} {held : List Obj}
  {idx a p size : ℕ} {l : List ℕ} {o : Obj}

lemma mem_update_iff {F : ℕ → List ℕ} {P : ℕ → ℕ → Prop}
    (hidx : ∀ a, a ∈ l ↔ P idx a) (hother : ∀ i, i ≠ idx → ∀ a, a ∈ F i ↔ P i a) (i a : ℕ) :
    a ∈ update F idx l i ↔ P i a := by
  by_cases hi : i = idx
  · subst hi
    rw [update_self]
    exact hidx a
  · rw [update_of_ne hi]
    exact hother i hi a

lemma zero_of_outside {mem : ℕ → ℕ} {b : ℕ} (hb : ¬ (a ≤ b ∧ b < a + size)) :
    zero mem a size b = mem b := if_neg hb

namespace SlabRep

/-! ## A new slab page -/

lemma alignedSize_eq (idx : ℕ) : alignedSize (slabIndexToSize idx) = slabIndexToSize idx := by
  have := le_slabIndexToSize idx
  rw [alignedSize, if_neg (by omega)]
  simp only [slabIndexToSize]
  omega

/-- The loop of `slab_grow` pushes the slots of the page. -/
lemma carve_eq (h : Heap) (idx p : ℕ) :
    carve idx (pfnToPhys p) h = (slots idx p).foldl (push idx) h := by
  rw [carve, alignedSize_eq, slots, foldl_map]
  rfl

/-- The block that the page allocator hands out is apart from what was held. -/
lemma not_mem_of_allocated {live : List Block} {b c : Block} {s s' : PhysMem} {L' : ℕ → List ℕ}
    (ha : Allocated s L live b s' L') (hc : c ∈ live) {x : ℕ} (hx : x ∈ b.span) : x ∉ c.span :=
  (pairwise_cons.1 (pairwise_append.1 ha.rep.tiles.pairwise_disjoint).2.1).1 c hc hx

section

variable (hr : SlabRep h L others S F held)

include hr

section

variable {b : Block} {s' : PhysMem} {L' : ℕ → List ℕ}
  (ha : Allocated h.buddy L (pageBlocks S ++ largeBlocks held ++ others) b s' L')

include ha

omit hr in
lemma not_page_of_allocated (hp : p ∈ b.span) : p ∉ S := fun hS =>
  not_mem_of_allocated ha (c := ⟨p, 0⟩) (by simp [mem_pageBlocks hS]) hp (Block.base_mem_span _)

lemma not_held_of_allocated (hp : pageOf a ∈ b.span) : a ∉ held.map Obj.addr := by
  intro hmem
  obtain ⟨o, ho, rfl⟩ := mem_map.1 hmem
  by_cases hsmall : o.size ≤ pageSize
  · exact not_page_of_allocated ha hp (hr.slot_page (hr.small o ho hsmall)).2.1
  · exact not_mem_of_allocated ha (c := o.block) (by simp [mem_largeBlocks ho (not_le.1 hsmall)])
      hp o.block.base_mem_span

end

/-- **`slab_grow`** fails without any effect or adds a page of which all objects are free. -/
lemma grow (hidx : idx < 8) : slabGrow h idx = some (h, false) ∨
      ∃ h' L' p, slabGrow h idx = some (h', true) ∧ SlabRep h' L' others (p :: S)
        (update F idx ((slots idx p).reverse ++ F idx)) held := by
  rcases allocPages_spec hr.buddy 0 with ⟨hfail, -⟩ | ⟨s', L', ⟨p, k⟩, halloc, rfl, halloced⟩
  · exact .inl (by simp [slabGrow, Heap.allocPages, hfail])
  right
  have hlt : p < s'.totalPhysPages :=
    halloced.rep.tiles.span_subset (b := ⟨p, 0⟩) (by simp) (Block.base_mem_span _)
  have hnew : p ∉ S := not_page_of_allocated halloced (Block.base_mem_span _)
  -- no object that is held or free lies in the page
  have hfree : ∀ i, ∀ a ∈ F i, pageOf a ≠ p := fun i a ha he => hnew (he ▸ (hr.free_page ha).1)
  have hheld : ∀ a ∈ slots idx p, a ∉ held.map Obj.addr := fun a ha =>
    hr.not_held_of_allocated halloced (pageOf_slots hidx ha ▸ Block.base_mem_span _)
  set h1 : Heap := { h with
      buddy := s', mem := zero h.mem (pfnToPhys p) (pageSize * 2 ^ 0) } with hh1
  set h2 : Heap := (slots idx p).foldl (push idx) h1 with hh2
  have hbuddy : h2.buddy = s' := by rw [hh2, foldl_push_buddy, hh1]
  have hpage : h2.page = h.page := by rw [hh2, foldl_push_page, hh1]
  have hlists2 : Lists h2 (update F idx ((slots idx p).reverse ++ F idx)) := by
    rw [hh2]
    refine Lists.foldl_push ?_ (nodup_slots idx p) fun a ha => ⟨slots_ne_zero hidx ha, ?_⟩
    · refine hr.lists.congr (by rw [hh1]) fun i a ha => ?_
      rw [hh1]
      refine zero_of_outside fun hin => hfree i a ha ?_
      exact pageOf_eq hin.1 hin.2
    · exact fun i hmem => hfree i a hmem (pageOf_slots hidx ha)
  set pages := update h.page p { h.page p with
      isSlab := true, slabCache := some idx, slabFreeCount := objsPerPage idx } with hdef
  have hself : pages p = ⟨true, some idx, objsPerPage idx⟩ := by simp [hdef]
  have hother : ∀ q, q ≠ p → pages q = h.page q := by
    intro q hq
    rw [hdef]
    exact update_of_ne hq _ _
  have hold : ∀ q ∈ S, pages q = h.page q := fun q hq => hother q fun he => hnew (he ▸ hq)
  refine ⟨{ h2 with page := pages }, L', p, ?_, ?_⟩
  · have hstruct : getPageStruct s' (pfnToPhys p) = some p :=
      getPageStruct_eq le_rfl (by simp [pageSize]) hlt
    simp only [slabGrow, Heap.allocPages, halloc, bind_eq_bind, bind_some, carve_eq]
    rw [if_pos (by decide), ← hh1, ← hh2]
    simp only [hbuddy, hstruct, modifyPage, hpage, hdef]
  have hslots : ∀ i b, Slot { h2 with page := pages } (p :: S) i b ↔
      (i = idx ∧ b ∈ slots idx p) ∨ Slot h S i b := by
    intro i b
    simp only [Slot, mem_cons, exists_eq_or_imp, hself, some.injEq]
    refine or_congr ?_ ?_
    · constructor
      · rintro ⟨rfl, hb⟩
        exact ⟨rfl, hb⟩
      · rintro ⟨rfl, hb⟩
        exact ⟨rfl, hb⟩
    · refine exists_congr fun q => and_congr_right fun hq => ?_
      rw [hold q hq]
  constructor
  · simp only [hbuddy]
    exact halloced.rep
  · intro q
    by_cases hq : q = p
    · subst hq
      simp [hself]
    · simp only [hother q hq, hr.isSlab, mem_cons, hq, false_or]
  · intro q hq
    rcases mem_cons.1 hq with rfl | hq
    · refine ⟨idx, hidx, by simp [hself], ?_⟩
      have hall : freeSlots held idx q = slots idx q :=
        filter_eq_self.2 fun a ha => by simpa using hheld a ha
      simp [hself, hall, length_slots]
    · simp only [hold q hq]
      exact hr.cached q hq
  · exact hlists2.congr rfl fun _ _ _ => rfl
  · refine mem_update_iff (fun b => ?_) fun i hie b => ?_
    · rw [mem_append, mem_reverse, hr.mem_free, hslots]
      constructor
      · rintro (hb | ⟨hb, hfreeb⟩)
        · exact ⟨.inl ⟨rfl, hb⟩, hheld b hb⟩
        · exact ⟨.inr hb, hfreeb⟩
      · rintro ⟨⟨-, hb⟩ | hb, hfreeb⟩
        · exact .inl hb
        · exact .inr ⟨hb, hfreeb⟩
    · rw [hr.mem_free, hslots]
      simp [hie]
  · intro o ho hsmall
    rw [hslots]
    exact .inr (hr.small o ho hsmall)
  · exact hr.large
  · exact hr.held_nodup

/-! ## Taking an object -/

/-- What `slabPop` returns. -/
lemma slabPop_eq (hF : F idx = a :: l) :
    slabPop h idx = ({ (h.setFreeList idx (h.mem a)).modifyPage (pageOf a) (fun pg =>
          { pg with slabFreeCount := pg.slabFreeCount - 1 }) with
          mem := zero h.mem a (slabIndexToSize idx) }, a) := by
  obtain ⟨hslot, hfree⟩ := (hr.mem_free idx a).1 (hF ▸ mem_cons_self)
  obtain ⟨hidx, hpage, hcache, hmem⟩ := hr.slot_page hslot
  obtain ⟨j, -, hcache', hcount⟩ := hr.cached _ hpage
  cases hcache.symm.trans hcache'
  have hpos : (h.page (pageOf a)).slabFreeCount > 0 := by
    rw [hcount]
    exact length_pos_of_mem (mem_freeSlots.2 ⟨hmem, hfree⟩)
  have hhead := (hr.lists.freeList_eq hF).1
  have hdescr := getPageStruct_slots hidx hmem (hr.page_lt hpage)
  have hslab := (hr.isSlab _).2 hpage
  rw [slabPop, hhead]
  simp only [setFreeList, hdescr, hslab, hpos, and_self, if_true]
  rfl

/-- **Taking the first object** of a free list. -/
lemma pop (hsize : size ≤ pageSize) (hF : F (slabSizeToIndex size) = a :: l) :
    ∃ h', slabPop h (slabSizeToIndex size) = (h', a) ∧
      SlabRep h' L others S (update F (slabSizeToIndex size) l) (⟨a, size⟩ :: held) := by
  generalize hi : slabSizeToIndex size = idx at hF
  refine ⟨_, hr.slabPop_eq hF, ?_⟩
  have hnd := hF ▸ hr.nodup idx
  obtain ⟨hslot, hfree⟩ := (hr.mem_free idx a).1 (hF ▸ mem_cons_self)
  obtain ⟨-, -, hcache, hmem⟩ := hr.slot_page hslot
  set h' : Heap := { (h.setFreeList idx (h.mem a)).modifyPage (pageOf a) (fun pg =>
    { pg with slabFreeCount := pg.slabFreeCount - 1 }) with
    mem := zero h.mem a (slabIndexToSize idx) } with hh'
  have hpages : ∀ q, (h'.page q).isSlab = (h.page q).isSlab ∧
      (h'.page q).slabCache = (h.page q).slabCache := by
    intro q
    by_cases hq : q = pageOf a
    · subst hq
      simp [hh', modifyPage, setFreeList]
    · simp [hh', modifyPage, setFreeList, hq]
  have hslots : ∀ i b, Slot h' S i b ↔ Slot h S i b := fun i b =>
    Slot.congr fun q => (hpages q).2
  constructor
  · rw [largeBlocks_cons_small hsize]
    exact hr.buddy
  · intro q
    rw [(hpages q).1]
    exact hr.isSlab q
  · intro q hq
    obtain ⟨i, hi, hcacheq, hcount⟩ := hr.cached q hq
    refine ⟨i, hi, (hpages q).2.trans hcacheq, ?_⟩
    by_cases hqa : q = pageOf a
    · subst hqa
      cases hcache.symm.trans hcacheq
      rw [freeSlots_cons, length_erase_of_mem (mem_freeSlots.2 ⟨hmem, hfree⟩), ← hcount]
      simp [hh', modifyPage, setFreeList]
    · have hnot : a ∉ slots i q := fun hmemq => hqa (pageOf_slots hi hmemq).symm
      rw [freeSlots_cons_of_not_mem (o := ⟨a, size⟩) hnot, ← hcount]
      simp [hh', modifyPage, setFreeList, hqa]
  · refine (hr.lists.pop hF).congr rfl fun i b hb => zero_of_outside ?_
    have hb' : b ∈ F i ∧ b ≠ a := by
      by_cases hie : i = idx
      · subst hie
        rw [update_self] at hb
        refine ⟨hF ▸ mem_cons_of_mem a hb, ?_⟩
        rintro rfl
        exact (nodup_cons.1 hnd).1 hb
      · rw [update_of_ne hie] at hb
        refine ⟨hb, ?_⟩
        rintro rfl
        exact hie (hr.slot_unique ((hr.mem_free i b).1 hb).1 hslot)
    exact hr.free_outside hslot hb'.1 hb'.2
  · refine mem_update_iff (fun b => ?_) fun i hie b => ?_
    · have hcons : b ∈ a :: l ↔ Slot h S idx b ∧ b ∉ held.map Obj.addr := hF ▸ hr.mem_free idx b
      rw [hslots, map_cons, mem_cons, not_or]
      constructor
      · intro hb
        obtain ⟨hslotb, hfreeb⟩ := hcons.1 (mem_cons_of_mem a hb)
        refine ⟨hslotb, ?_, hfreeb⟩
        rintro rfl
        exact (nodup_cons.1 hnd).1 hb
      · rintro ⟨hslotb, hne, hfreeb⟩
        exact (mem_cons.1 (hcons.2 ⟨hslotb, hfreeb⟩)).resolve_left hne
    · rw [hr.mem_free, hslots, map_cons, mem_cons, not_or]
      refine ⟨fun hb => ⟨hb.1, ?_, hb.2⟩, fun hb => ⟨hb.1, hb.2.2⟩⟩
      rintro rfl
      exact hie (hr.slot_unique hb.1 hslot)
  · intro o ho hsmall
    rw [hslots]
    rcases mem_cons.1 ho with rfl | ho
    · rwa [hi]
    · exact hr.small o ho hsmall
  · exact forall_mem_cons.2 ⟨fun hlarge => absurd hsize (not_le.2 hlarge), hr.large⟩
  · exact nodup_cons.2 ⟨hfree, hr.held_nodup⟩

/-! ## Giving an object back -/

omit hr in
/-- **Pushing an object** that its caller gives back. -/
lemma giveBack (hr : SlabRep h L others S F (o :: held)) (hsize : o.size ≤ pageSize) :
    SlabRep (giveBack h (slabSizeToIndex o.size) (pageOf o.addr) o.addr) L others S
      (update F (slabSizeToIndex o.size) (o.addr :: F (slabSizeToIndex o.size))) held := by
  have hslot := hr.small o mem_cons_self hsize
  generalize hi : slabSizeToIndex o.size = idx at hslot ⊢
  obtain ⟨hidx, -, hcache, hmem⟩ := hr.slot_page hslot
  obtain ⟨hfree, hheld⟩ : o.addr ∉ held.map Obj.addr ∧ (held.map Obj.addr).Nodup :=
    nodup_cons.1 hr.held_nodup
  -- the object was on no list
  have hout : ∀ i, o.addr ∉ F i := fun i hmem => ((hr.mem_free i _).1 hmem).2 (by simp)
  set h' := Slab.giveBack h idx (pageOf o.addr) o.addr with hh'
  have hpages : ∀ q, (h'.page q).isSlab = (h.page q).isSlab ∧
      (h'.page q).slabCache = (h.page q).slabCache := by
    intro q
    by_cases hq : q = pageOf o.addr
    · subst hq
      simp [hh', Slab.giveBack, modifyPage, push, setFreeList, store]
    · simp [hh', Slab.giveBack, modifyPage, push, setFreeList, store, hq]
  have hslots : ∀ i b, Slot h' S i b ↔ Slot h S i b := fun i b =>
    Slot.congr fun q => (hpages q).2
  constructor
  · rw [← largeBlocks_cons_small hsize]
    exact hr.buddy
  · intro q
    rw [(hpages q).1]
    exact hr.isSlab q
  · intro q hq
    obtain ⟨i, hi, hcacheq, hcount⟩ := hr.cached q hq
    refine ⟨i, hi, (hpages q).2.trans hcacheq, ?_⟩
    by_cases hqa : q = pageOf o.addr
    · subst hqa
      cases hcache.symm.trans hcacheq
      have hin := mem_freeSlots.2 ⟨hmem, hfree⟩
      rw [freeSlots_cons, length_erase_of_mem hin] at hcount
      have := length_pos_of_mem hin
      simp only [hh', Slab.giveBack, modifyPage, push, setFreeList, store,
        update_self, hcount]
      omega
    · have hnot : o.addr ∉ slots i q := fun hmemq => hqa (pageOf_slots hi hmemq).symm
      rw [freeSlots_cons_of_not_mem hnot] at hcount
      rw [← hcount]
      simp [hh', Slab.giveBack, modifyPage, push, setFreeList, store, hqa]
  · -- clearing and marking the object leaves the links of the others alone
    have hmarked : Lists (({ h with mem := zero h.mem o.addr (slabIndexToSize idx) } : Heap).store
        (o.addr + 8) slabFreeMagic) F := by
      refine hr.lists.congr rfl fun i b hb => ?_
      have hne : b ≠ o.addr := fun he => hout i (he ▸ hb)
      have houtside := hr.free_outside hslot hb hne
      have hb8 : b ≠ o.addr + 8 := by
        have := le_slabIndexToSize idx
        omega
      exact (update_of_ne hb8 _ _).trans (zero_of_outside houtside)
    exact (hmarked.push (slots_ne_zero hidx hmem) hout).congr rfl fun _ _ _ => rfl
  · have hold : ∀ i b, b ∈ F i ↔ Slot h S i b ∧ b ≠ o.addr ∧ b ∉ held.map Obj.addr := by
      intro i b
      rw [hr.mem_free, map_cons, mem_cons, not_or]
    refine mem_update_iff (fun b => ?_) fun i hie b => ?_
    · rw [mem_cons, hold, hslots]
      constructor
      · rintro (rfl | hb)
        · exact ⟨hslot, hfree⟩
        · exact ⟨hb.1, hb.2.2⟩
      · rintro ⟨hslotb, hfreeb⟩
        by_cases hb : b = o.addr
        · exact .inl hb
        · exact .inr ⟨hslotb, hb, hfreeb⟩
    · rw [hold, hslots]
      refine ⟨fun hb => ⟨hb.1, hb.2.2⟩, fun hb => ⟨hb.1, ?_, hb.2⟩⟩
      rintro rfl
      exact hie (hr.slot_unique hb.1 hslot)
  · intro o' ho' hsmall
    rw [hslots]
    exact hr.small o' (mem_cons_of_mem o ho') hsmall
  · exact fun o' ho' => hr.large o' (mem_cons_of_mem o ho')
  · exact hheld

/-- The free objects of one page among those of its cache. -/
lemma mem_free_iff_page (ha : a ∈ F idx) :
    (a ≥ pfnToPhys p ∧ a < pfnToPhys p + pageSize) ↔ a ∈ slots idx p := by
  obtain ⟨hidx, -, -, hmem⟩ := hr.slot_page ((hr.mem_free idx a).1 ha).1
  constructor
  · rintro ⟨hle, hlt⟩
    rwa [pageOf_eq hle hlt] at hmem
  · intro hslot
    have := slots_within hidx hslot
    have := le_slabIndexToSize idx
    omega

/-- A list of objects is shorter than the bound on the loop of `kfree`. -/
lemma length_lt (i : ℕ) : (F i).length < unlinkFuel := by
  have hsub : (F i).Subset (List.range (pfnToPhys buddyMaxPages)) := by
    intro a ha
    obtain ⟨hpage, -, hlt⟩ := hr.free_page ha
    have hp := (hr.page_lt hpage).trans_le hr.buddy.total_le
    have := Nat.mul_le_mul_right pageSize (Nat.succ_le_of_lt hp)
    rw [Nat.succ_mul] at this
    simp only [pfnToPhys, mem_range] at hlt ⊢
    omega
  have := (subperm_of_subset (hr.nodup i) hsub).length_le
  simp only [length_range, pfnToPhys, physMemBase, buddyMaxPages, pageSize] at this
  unfold unlinkFuel
  omega

/-- **Giving a page back** of which no object is held. -/
lemma reclaim (hp : p ∈ S)
    (hcache : (h.page p).slabCache = some idx)
    (hunused : ∀ a ∈ slots idx p, a ∉ held.map Obj.addr) :
    ∃ h' L', Slab.reclaim h idx p = some h' ∧ SlabRep h' L' others (S.erase p)
        (update F idx ((F idx).filter fun a => a ∉ slots idx p)) held ∧
      ∃ b ∈ freeBlocks L', p ∈ b.span := by
  have hnd := hr.nodup_pages
  have hlive : ⟨p, 0⟩ ∈ pageBlocks S ++ largeBlocks held ++ others := by
    simp [mem_pageBlocks hp]
  have hphys : (h.buddy.pageArray p).physAddr = pfnToPhys p :=
    (hr.buddy.live_descr _ hlive).physAddr
  have hlist : IsList (link h.mem) (ptr (h.freeList idx)) ([] ++ F idx) := hr.lists idx
  obtain ⟨h1, hrun, hlist1, hframe1⟩ := unlinkPage_spec (pfnToPhys p) (pfnToPhys p + pageSize)
    hlist (hr.lists idx).head_eq (hr.length_lt idx)
  obtain ⟨s', L', hfree, hrep', hmem', -⟩ := freePages_spec hr.buddy hlive
  have hfilter : ((F idx).filter fun a => ¬ (a ≥ pfnToPhys p ∧ a < pfnToPhys p + pageSize)) =
      (F idx).filter fun a => a ∉ slots idx p := by
    refine filter_congr fun a ha => ?_
    simp only [hr.mem_free_iff_page ha]
  have herase : (pageBlocks S ++ largeBlocks held ++ others).erase ⟨p, 0⟩ =
      pageBlocks (S.erase p) ++ largeBlocks held ++ others := by
    rw [append_assoc, erase_append_left _ (mem_pageBlocks hp), append_assoc]
    congr 1
    exact (map_erase (fun p q hpq => (Block.mk.inj hpq).1) S).symm
  have hne : ∀ q, q ∈ S.erase p ↔ q ≠ p ∧ q ∈ S := fun q => hnd.mem_erase_iff
  set pages := update h.page p
      { h.page p with isSlab := false, slabCache := none, slabFreeCount := 0 } with hdef
  have hself : (pages p).isSlab = false := by simp [hdef]
  have hpages : ∀ q, q ≠ p → pages q = h.page q := by
    intro q hq
    rw [hdef]
    exact update_of_ne hq _ _
  refine ⟨{ h1 with buddy := s', page := pages }, L', ?_, ?_, ?_⟩
  · rw [Slab.reclaim, hphys]
    simp only [List.getLast?_nil] at hrun
    dsimp only
    rw [hrun]
    simp [bind_eq_bind, bind_some, modifyPage, Heap.freePages, hframe1.buddy, hframe1.page,
      hfree, hdef]
  · have hslots : ∀ i b, (∃ q ∈ S.erase p, (pages q).slabCache = some i ∧ b ∈ slots i q) ↔
        Slot h S i b ∧ pageOf b ≠ p := by
      intro i b
      constructor
      · rintro ⟨q, hq, hcacheq, hb⟩
        obtain ⟨hqp, hq⟩ := (hne q).1 hq
        rw [hpages q hqp] at hcacheq
        have hslot : Slot h S i b := ⟨q, hq, hcacheq, hb⟩
        refine ⟨hslot, ?_⟩
        rwa [pageOf_slots (hr.slot_page hslot).1 hb]
      · rintro ⟨hslot, hbp⟩
        obtain ⟨-, hq, hcacheq, hb⟩ := hr.slot_page hslot
        exact ⟨pageOf b, (hne _).2 ⟨hbp, hq⟩, by rwa [hpages _ hbp], hb⟩
    constructor
    · rwa [← herase]
    · intro q
      rw [hne]
      by_cases hq : q = p
      · subst hq
        simp [hself]
      · simp only [hpages q hq, hr.isSlab]
        simp [hq]
    · intro q hq
      obtain ⟨hqp, hq⟩ := (hne q).1 hq
      simp only [hpages q hqp]
      exact hr.cached q hq
    · intro i
      by_cases hie : i = idx
      · subst hie
        rwa [update_self, ← hfilter]
      · rw [update_of_ne hie]
        simp only [hframe1.freeList i hie]
        refine (hr.lists i).congr fun b hb => ?_
        have hnot : b ∉ [] ++ F idx := fun hmem =>
          hie (hr.slot_unique ((hr.mem_free i b).1 hb).1 ((hr.mem_free idx b).1 hmem).1)
        exact congrArg ptr (hframe1.mem b hnot)
    · refine mem_update_iff (fun b => ?_) fun i hie b => ?_
      · have hb : b ∈ (F idx).filter (fun a => a ∉ slots idx p) ↔
            (Slot h S idx b ∧ b ∉ held.map Obj.addr) ∧ b ∉ slots idx p := by
          simp [mem_filter, hr.mem_free]
        rw [hb]
        refine (Iff.trans ?_ (and_congr_left' (hslots idx b).symm))
        constructor
        · rintro ⟨⟨hslot, hfree⟩, hout⟩
          refine ⟨⟨hslot, fun hbp => hout ?_⟩, hfree⟩
          exact hbp ▸ (hr.slot_page hslot).2.2.2
        · rintro ⟨⟨hslot, hbp⟩, hfree⟩
          exact ⟨⟨hslot, hfree⟩, fun hin => hbp (pageOf_slots (hr.slot_page hslot).1 hin)⟩
      · rw [hr.mem_free]
        refine (Iff.trans ?_ (and_congr_left' (hslots i b).symm))
        refine and_congr_left' ⟨fun hslot => ⟨hslot, ?_⟩, And.left⟩
        rintro rfl
        exact hie (some.inj ((hr.slot_page hslot).2.2.1.symm.trans hcache))
    · intro o ho hsmall
      refine (hslots _ _).2 ⟨hr.small o ho hsmall, ?_⟩
      rintro rfl
      obtain ⟨-, -, hcacheo, hslot⟩ := hr.slot_page (hr.small o ho hsmall)
      rw [some.inj (hcacheo.symm.trans hcache)] at hslot
      exact hunused _ hslot (mem_map_of_mem ho)
    · exact hr.large
    · exact hr.held_nodup
  · refine (hrep'.covered_iff p).2 ⟨?_, ?_, ?_⟩
    · rw [hmem'.total]
      exact hr.page_lt hp
    · rw [hmem'.reserved]
      exact hr.buddy.tiles.not_mem_rest (mem_append_right _ hlive) (Block.base_mem_span ⟨p, 0⟩)
    · intro d hd hpd
      have hdlive := mem_of_mem_erase hd
      obtain rfl := hr.buddy.tiles.eq_of_mem_span (mem_append_right _ hdlive)
        (mem_append_right _ hlive) hpd (Block.base_mem_span ⟨p, 0⟩)
      have hblocks := (nodup_append.1
        (List.Nodup.of_map _ hr.buddy.tiles.nodup_map_base)).2.1
      exact hblocks.not_mem_erase hd

/-! ## Large objects -/

/-- **Allocating a block** for a large object. -/
lemma allocLarge (hlarge : pageSize < size) (horder : orderOf size ≤ maxOrder) :
    h.allocPages (orderOf size) = some (h, none) ∨
      ∃ h' L' a, h.allocPages (orderOf size) = some (h', some a) ∧
        SlabRep h' L' others S F (⟨a, size⟩ :: held) := by
  rcases allocPages_spec hr.buddy (orderOf size) with ⟨hfail, -⟩ |
    ⟨s', L', b, halloc, hb, halloced⟩
  · exact .inl (by simp [Heap.allocPages, hfail])
  right
  set mem := (if orderOf size < maxOrder then
      zero h.mem (pfnToPhys b.base) (pageSize * 2 ^ orderOf size) else h.mem) with hmem
  refine ⟨{ h with buddy := s', mem }, L', pfnToPhys b.base, ?_, ?_⟩
  · simp [Heap.allocPages, halloc, hmem]
  have hblock : (Obj.mk (pfnToPhys b.base) size).block = b := by
    simp [Obj.block, pageOf_pfnToPhys, ← hb]
  have hrep : Rep s' L' (pageBlocks S ++ largeBlocks (⟨pfnToPhys b.base, size⟩ :: held)
      ++ others) := by
    refine halloced.rep.perm ?_
    rw [largeBlocks_cons_large (o := ⟨pfnToPhys b.base, size⟩) hlarge, hblock]
    simp only [append_assoc, cons_append]
    exact perm_middle.symm
  -- the block is new
  have hpage : b.base ∉ S := not_page_of_allocated halloced b.base_mem_span
  have hfresh : pfnToPhys b.base ∉ held.map Obj.addr :=
    hr.not_held_of_allocated halloced (by rw [pageOf_pfnToPhys]; exact b.base_mem_span)
  have hslot : ∀ i a, Slot h S i a → a ≠ pfnToPhys b.base := by
    rintro i a hslot rfl
    have := (hr.slot_page hslot).2.1
    rw [pageOf_pfnToPhys] at this
    exact hpage this
  constructor
  · exact hrep
  · exact hr.isSlab
  · intro p hp
    obtain ⟨i, hi, hcache, hcount⟩ := hr.cached p hp
    refine ⟨i, hi, hcache, ?_⟩
    rw [freeSlots_cons_of_not_mem (o := ⟨pfnToPhys b.base, size⟩)]
    · exact hcount
    · exact fun hmem => hslot i _ ⟨p, hp, hcache, hmem⟩ rfl
  · refine hr.lists.congr rfl fun i c hc => ?_
    obtain ⟨hpc, hle, hlt⟩ := hr.free_page hc
    -- a slab page is not in the block
    have hout : pageOf c ∉ b.span := fun hin => not_page_of_allocated halloced hin hpc
    rw [Block.mem_span] at hout
    simp only [hmem]
    split_ifs
    · refine zero_of_outside fun hin => hout ?_
      rw [← hb] at hin
      simp only [pfnToPhys] at hin hle hlt
      constructor
      · by_contra hlow
        have := Nat.mul_le_mul_right pageSize (Nat.succ_le_of_lt (not_le.1 hlow))
        rw [Nat.succ_mul] at this
        omega
      · by_contra hhigh
        have := Nat.mul_le_mul_right pageSize (not_lt.1 hhigh)
        rw [Nat.add_mul, Nat.mul_comm (2 ^ b.order)] at this
        omega
    · rfl
  · intro i a
    rw [hr.mem_free, map_cons, mem_cons, not_or]
    exact ⟨fun ha => ⟨ha.1, hslot i a ha.1, ha.2⟩, fun ha => ⟨ha.1, ha.2.2⟩⟩
  · exact forall_mem_cons.2 ⟨fun hsmall => absurd hsmall (not_le.2 hlarge), hr.small⟩
  · exact forall_mem_cons.2 ⟨fun _ => ⟨by simp only [pageOf_pfnToPhys], horder⟩, hr.large⟩
  · exact nodup_cons.2 ⟨hfresh, hr.held_nodup⟩

end

/-- **Freeing a large object**. -/
lemma freeLarge (hr : SlabRep h L others S F (o :: held)) (hlarge : pageSize < o.size) :
    ∃ h' L', kfree h o.addr = some h' ∧ SlabRep h' L' others S F held := by
  obtain ⟨haddr, -⟩ := hr.large o mem_cons_self hlarge
  have hblock : o.block ∈ pageBlocks S ++ largeBlocks (o :: held) ++ others := by
    simp [mem_largeBlocks (mem_cons_self) hlarge]
  have hdescr := hr.buddy.live_descr _ hblock
  have hpage : pageOf o.addr ∉ S := fun hp =>
    hr.page_not_mem_block hp mem_cons_self hlarge o.block.base_mem_span
  have hlt : pageOf o.addr < h.buddy.totalPhysPages :=
    hr.buddy.tiles.span_subset (mem_append_right _ hblock) o.block.base_mem_span
  obtain ⟨s', L', hfree, hrep', -, -⟩ := freePages_spec hr.buddy hblock
  have hslot : ∀ i a, Slot h S i a → a ≠ o.addr := by
    rintro i a hslot rfl
    exact hpage (hr.slot_page hslot).2.1
  refine ⟨{ h with buddy := s' }, L', ?_, ?_⟩
  · have hnull : o.addr ≠ 0 := by
      rw [haddr]
      simp [pfnToPhys, physMemBase]
    have hstruct : getPageStruct h.buddy o.addr = some (pageOf o.addr) :=
      getPageStruct_eq haddr.ge (by rw [← haddr]; simp [pageSize]) hlt
    have hslab : (h.page (pageOf o.addr)).isSlab = false := by
      rw [← Bool.not_eq_true]
      exact fun hs => hpage ((hr.isSlab _).1 hs)
    have horder' : (h.buddy.pageArray (pageOf o.addr)).order = o.block.order := hdescr.order
    have hbase : pfnToPhys o.block.base = o.addr := haddr.symm
    rw [hbase] at hfree
    simp [kfree, hnull, hstruct, hslab, horder', Heap.freePages, hfree]
  · constructor
    · refine hrep'.perm ?_
      rw [largeBlocks_cons_large hlarge]
      refine List.Perm.trans (List.Perm.erase _ ?_) (List.Perm.of_eq (erase_cons_head _ _))
      simp only [append_assoc, cons_append]
      exact perm_middle
    · exact hr.isSlab
    · intro p hp
      obtain ⟨i, hi, hcache, hcount⟩ := hr.cached p hp
      refine ⟨i, hi, hcache, ?_⟩
      rwa [freeSlots_cons_of_not_mem fun hmem => hslot i _ ⟨p, hp, hcache, hmem⟩ rfl] at hcount
    · exact hr.lists
    · intro i a
      rw [hr.mem_free, map_cons, mem_cons, not_or]
      exact ⟨fun ha => ⟨ha.1, ha.2.2⟩, fun ha => ⟨ha.1, hslot i a ha.1, ha.2⟩⟩
    · exact fun o' ho' => hr.small o' (mem_cons_of_mem o ho')
    · exact fun o' ho' => hr.large o' (mem_cons_of_mem o ho')
    · exact (nodup_cons.1 hr.held_nodup).2

end SlabRep

end Aurora.Slab
