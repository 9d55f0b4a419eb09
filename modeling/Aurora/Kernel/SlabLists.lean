import Aurora.Kernel.Slab

/-!
# The free lists of the slab caches

The lists are threaded through memory: the first word of a free object is the address of the
next one. `Lists h F` says that the list of cache `i` visits exactly `F i`, and there is one
lemma for each way in which the allocator changes a list.

## Main definitions

* `ptr`, `link`: words read as pointers.
* `Lists h F`: the free lists in memory.
* `unlinkPage_spec`: the loop of `kfree` filters the list.
-/

namespace Aurora.Slab

open Lib Function List

/-- A word as a pointer. -/
def ptr (v : ℕ) : Option ℕ := if v = 0 then none else some v

/-- The link in the first word of an object. -/
def link (mem : ℕ → ℕ) (a : ℕ) : Option ℕ := ptr (mem a)

lemma ptr_eq_none {v : ℕ} : ptr v = none ↔ v = 0 := by
  simp [ptr]

lemma ptr_eq_some {v a : ℕ} : ptr v = some a ↔ v = a ∧ a ≠ 0 := by
  unfold ptr
  split_ifs with h
  · subst h
    simp
    intro h0
    exact h0.symm
  · constructor
    · rintro ⟨⟩
      exact ⟨rfl, h⟩
    · rintro ⟨rfl, -⟩
      rfl

lemma link_update (mem : ℕ → ℕ) (a v : ℕ) :
    link (update mem a v) = update (link mem) a (ptr v) := by
  funext b
  by_cases h : b = a
  · subst h
    simp [link]
  · simp [link, h]

/-- The free list of each cache holds exactly the objects `F i`. -/
def Lists (h : Heap) (F : ℕ → List ℕ) : Prop :=
  ∀ i, IsList (link h.mem) (ptr (h.freeList i)) (F i)

variable {h h' : Heap} {F : ℕ → List ℕ} {idx a : ℕ} {l : List ℕ}

namespace Lists

/-- Only the first words of the free objects matter. -/
lemma congr (hl : Lists h F) (hhead : h'.freeList = h.freeList)
    (hmem : ∀ i, ∀ a ∈ F i, h'.mem a = h.mem a) : Lists h' F := by
  intro i
  rw [hhead]
  refine (hl i).congr fun a ha => ?_
  rw [link, link, hmem i a ha]

lemma freeList_eq (hl : Lists h F) (hF : F idx = a :: l) : h.freeList idx = a ∧ a ≠ 0 := by
  have := hl idx
  rw [hF] at this
  exact ptr_eq_some.1 this.1

lemma freeList_eq_zero (hl : Lists h F) : h.freeList idx = 0 ↔ F idx = [] := by
  rw [← ptr_eq_none, (hl idx).head_eq, head?_eq_none_iff]

lemma push (hl : Lists h F) (ha : a ≠ 0) (hfresh : ∀ i, a ∉ F i) :
    Lists (h.push idx a) (update F idx (a :: F idx)) := by
  intro i
  have hmem : link (h.push idx a).mem = update (link h.mem) a (ptr (h.freeList idx)) :=
    link_update _ _ _
  have hhead : (h.push idx a).freeList = update h.freeList idx a := rfl
  rw [hmem, hhead]
  by_cases hi : i = idx
  · subst hi
    simp only [update_self]
    rw [ptr_eq_some.2 ⟨rfl, ha⟩]
    exact (hl i).push (hfresh i)
  · simp only [update_of_ne hi]
    exact (hl i).update (hfresh i) _

lemma pop (hl : Lists h F) (hF : F idx = a :: l) :
    Lists (h.setFreeList idx (h.mem a)) (update F idx l) := by
  intro i
  have hhead : (h.setFreeList idx (h.mem a)).freeList = update h.freeList idx (h.mem a) :=
    rfl
  rw [hhead]
  by_cases hi : i = idx
  · subst hi
    have := hl i
    rw [hF] at this
    simp only [update_self]
    exact this.2
  · simp only [update_of_ne hi]
    exact hl i

end Lists

/-! ## Pushing the objects of a page -/

lemma foldl_push_buddy (idx : ℕ) (as : List ℕ) (h : Heap) :
    (as.foldl (Heap.push idx) h).buddy = h.buddy := by
  induction as generalizing h with
  | nil => rfl
  | cons a as ih => exact ih (h.push idx a)

lemma foldl_push_page (idx : ℕ) (as : List ℕ) (h : Heap) :
    (as.foldl (Heap.push idx) h).page = h.page := by
  induction as generalizing h with
  | nil => rfl
  | cons a as ih => exact ih (h.push idx a)

/-- Pushing objects one by one puts them in front in the opposite order. -/
lemma Lists.foldl_push {as : List ℕ} (hl : Lists h F) (hnd : as.Nodup)
    (has : ∀ a ∈ as, a ≠ 0 ∧ ∀ i, a ∉ F i) :
    Lists (as.foldl (Heap.push idx) h) (update F idx (as.reverse ++ F idx)) := by
  induction as generalizing h F with
  | nil => simpa using hl
  | cons a as ih =>
    obtain ⟨hnot, hnd⟩ := nodup_cons.1 hnd
    obtain ⟨⟨ha, hfresh⟩, has⟩ := forall_mem_cons.1 has
    have hstep : Lists (h.push idx a) (update F idx (a :: F idx)) := hl.push ha hfresh
    have hrest : ∀ b ∈ as, b ≠ 0 ∧ ∀ i, b ∉ update F idx (a :: F idx) i := by
      intro b hb
      refine ⟨(has b hb).1, fun i hi => ?_⟩
      by_cases he : i = idx
      · subst he
        rw [update_self] at hi
        rcases mem_cons.1 hi with rfl | hi
        · exact hnot hb
        · exact (has b hb).2 i hi
      · rw [update_of_ne he] at hi
        exact (has b hb).2 i hi
    have := ih hstep hnd hrest
    simpa using this

/-! ## Unlinking the objects of a page -/

/-- What the loop leaves alone. -/
structure Unlinked (idx : ℕ) (l : List ℕ) (h h' : Heap) : Prop where
  buddy : h'.buddy = h.buddy
  page : h'.page = h.page
  freeList : ∀ j, j ≠ idx → h'.freeList j = h.freeList j
  mem : ∀ a, a ∉ l → h'.mem a = h.mem a

lemma Unlinked.refl (idx : ℕ) (l : List ℕ) (h : Heap) : Unlinked idx l h h :=
  ⟨rfl, rfl, fun _ _ => rfl, fun _ _ => rfl⟩

/-- Unlinking the object after `prev`. -/
lemma writeLink_spec {l1 l2 : List ℕ}
    (hlist : IsList (link h.mem) (ptr (h.freeList idx)) (l1 ++ a :: l2)) :
    let h' := writeLink h idx (h.mem a) l1.getLast?
    IsList (link h'.mem) (ptr (h'.freeList idx)) (l1 ++ l2) ∧ Unlinked idx l1 h h' ∧
      readLink h' idx l1.getLast? = h.mem a := by
  rcases eq_nil_or_concat l1 with rfl | ⟨l, b, rfl⟩
  · refine ⟨?_, ⟨rfl, rfl, fun j hj => update_of_ne hj _ _, fun _ _ => rfl⟩, ?_⟩
    · simpa [writeLink, Heap.setFreeList, link] using hlist.2
    · simp [writeLink, readLink, Heap.setFreeList]
  · simp only [concat_eq_append, append_assoc, singleton_append] at hlist ⊢
    simp only [getLast?_concat, writeLink, readLink]
    refine ⟨?_, ⟨rfl, rfl, fun _ _ => rfl, fun c hc => ?_⟩, update_self ..⟩
    · rw [Heap.store, link_update]
      exact hlist.skip
    · have hcb : c ≠ b := by
        rintro rfl
        simp at hc
      exact update_of_ne hcb _ _

/-- **The loop of `kfree`** keeps the objects outside the page, in their order. -/
lemma unlinkPage_spec (pageStart pageEnd : ℕ) {fuel cur : ℕ} {l1 l2 : List ℕ}
    (hlist : IsList (link h.mem) (ptr (h.freeList idx)) (l1 ++ l2))
    (hcur : ptr cur = l2.head?) (hfuel : l2.length < fuel) :
    ∃ h', unlinkPage idx pageStart pageEnd fuel l1.getLast? cur h = some h' ∧
      IsList (link h'.mem) (ptr (h'.freeList idx))
        (l1 ++ l2.filter fun a => ¬ (a ≥ pageStart ∧ a < pageEnd)) ∧
      Unlinked idx (l1 ++ l2) h h' := by
  -- along the objects still to visit
  induction l2 generalizing l1 cur h fuel with
  | nil =>
    obtain ⟨fuel, rfl⟩ := Nat.exists_eq_add_of_lt hfuel
    have hzero : cur = 0 := ptr_eq_none.1 hcur
    exact ⟨h, by simp [unlinkPage, hzero], hlist, .refl _ _ _⟩
  | cons a l2 ih =>
    obtain ⟨fuel, rfl⟩ := Nat.exists_eq_add_of_lt hfuel
    obtain ⟨rfl, hne⟩ := ptr_eq_some.1 hcur
    have hnext : ptr (h.mem cur) = l2.head? := hlist.next_eq
    rw [unlinkPage, if_neg hne]
    by_cases hin : cur ≥ pageStart ∧ cur < pageEnd
    · obtain ⟨hlist', hframe, hread⟩ := writeLink_spec hlist
      rw [if_pos hin]
      dsimp only
      rw [hread]
      obtain ⟨h', hrun, hfiltered, hframe'⟩ := ih hlist' hnext (Nat.lt_of_succ_lt_succ hfuel)
      refine ⟨h', hrun, ?_, ?_⟩
      · rwa [filter_cons_of_neg (by simp [hin])]
      · refine ⟨hframe'.buddy.trans hframe.buddy, hframe'.page.trans hframe.page, ?_, ?_⟩
        · exact fun j hj => (hframe'.freeList j hj).trans (hframe.freeList j hj)
        · intro b hb
          simp only [mem_append, mem_cons, not_or] at hb
          rw [hframe'.mem b (by simp [hb.1, hb.2.2]), hframe.mem b hb.1]
    · rw [if_neg hin]
      have hsplit : l1 ++ cur :: l2 = (l1 ++ [cur]) ++ l2 := by simp
      rw [hsplit] at hlist
      obtain ⟨h', hrun, hfiltered, hframe⟩ := ih hlist hnext (Nat.lt_of_succ_lt_succ hfuel)
      rw [getLast?_concat] at hrun
      refine ⟨h', hrun, ?_, ?_⟩
      · rw [filter_cons_of_pos (by exact decide_eq_true hin)]
        simpa using hfiltered
      · rwa [hsplit]

end Aurora.Slab
