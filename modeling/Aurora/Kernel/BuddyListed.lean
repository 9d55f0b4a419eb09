import Aurora.Kernel.BuddyOps

/-!
# The free lists alone

Merging needs little: the lists hold exactly the free descriptors of their order. It covers
the same page frames as before, each as often, whether or not blocks overlap, and so does the
coalescing of all lists.

## Main definitions

* `freePfns`: the page frames of the free blocks.
* `Rearranged`: the same page frames on other lists.
* `MergeKeeps`: an invariant that merging keeps; `buddyCoalesceAll_spec`: coalescing keeps
  it, too.
-/

namespace Aurora.Buddy

open Lib List

variable {s s' : PhysMem} {L L' : ℕ → List ℕ} {k p : ℕ}

/-! ## The lists, whatever they cover -/

/-- The page frames of the free blocks, block by block. -/
def freePfns (L : ℕ → List ℕ) : List ℕ := (freeBlocks L).flatMap Block.span

lemma mem_freePfns {x : ℕ} : x ∈ freePfns L ↔ ∃ b ∈ freeBlocks L, x ∈ b.span :=
  mem_flatMap

lemma freePfns_perm {K : List Block} (h : (freeBlocks L).Perm K) :
    (freePfns L).Perm (K.flatMap Block.span) :=
  h.flatMap_right _

lemma FreeLists.nodup_base (h : FreeLists s L) : ((freeBlocks L).map Block.base).Nodup := by
  have hmap : (freeBlocks L).map Block.base = (List.range (maxOrder + 1)).flatMap L := by
    simp [freeBlocks, map_flatMap, Function.comp_def]
  rw [hmap, nodup_flatMap]
  refine ⟨fun k _ => h.nodup k, nodup_range.imp fun hne p hj hk => hne ?_⟩
  exact h.disjoint _ _ p hj hk

lemma Listed.length_freeBlocks_le (h : Listed s L) : (freeBlocks L).length ≤ buddyMaxPages := by
  have hsub : (freeBlocks L).map Block.base ⊆ List.range s.totalPhysPages := by
    intro p hp
    obtain ⟨b, hb, rfl⟩ := mem_map.1 hp
    exact mem_range.2 (h.base_lt _ _ (mem_freeBlocks.1 hb).2)
  have hlen := (subperm_of_subset h.lists.nodup_base hsub).length_le
  rw [length_map, length_range] at hlen
  exact hlen.trans h.total_le

/-- A physical address is kept, or it is the one of the page frame. -/
def PhysKept (s s' : PhysMem) : Prop :=
  ∀ x, (s'.pageArray x).physAddr = (s.pageArray x).physAddr ∨
    (s'.pageArray x).physAddr = pfnToPhys x

lemma PhysKept.refl (s : PhysMem) : PhysKept s s := fun _ => .inl rfl

lemma PhysKept.trans {s'' : PhysMem} (h : PhysKept s s') (h' : PhysKept s' s'') :
    PhysKept s s'' := by
  intro x
  rcases h' x with hx | hx
  · rw [hx]
    exact h x
  · exact .inr hx

lemma SameDescr.physKept (h : SameDescr s s') : PhysKept s s' := fun x => .inl (h.physAddr x)

lemma physKept_modifyPage (s : PhysMem) (p : ℕ) {f : Page → Page}
    (h : (f (s.pageArray p)).physAddr = (s.pageArray p).physAddr ∨
      (f (s.pageArray p)).physAddr = pfnToPhys p) : PhysKept s (s.modifyPage p f) := by
  intro x
  by_cases hp : x = p
  · rwa [hp, pageArray_modifyPage_self]
  · rw [pageArray_modifyPage_of_ne _ _ hp]
    exact .inl rfl

lemma physKept_mergePages (s : PhysMem) (p q k : ℕ) : PhysKept s (mergePages s p q k) := by
  unfold mergePages
  exact (physKept_modifyPage s p (.inr rfl)).trans (physKept_modifyPage _ q (.inl rfl))

/-- A descriptor that is not reserved, and of order 0 unless it is the first one of a free
block. -/
def Clean (s : PhysMem) (x : ℕ) : Prop :=
  (s.pageArray x).flags.reserved = false ∧
    ((s.pageArray x).flags.free = false → (s.pageArray x).order = 0)

lemma Clean.congr {x : ℕ} (h : Clean s x) (hsame : SameAt s s' x) : Clean s' x := by
  rwa [Clean, hsame.flags, hsame.order]

/-- What an operation on the lists comes to that covers the same page frames. -/
structure Rearranged (s : PhysMem) (L : ℕ → List ℕ) (s' : PhysMem) (L' : ℕ → List ℕ) : Prop where
  listed : Listed s' L'
  total : s'.totalPhysPages = s.totalPhysPages
  phys : PhysKept s s'
  cover : (freePfns L').Perm (freePfns L)
  same : ∀ x, SameAt s s' x ∨ x ∈ freePfns L ∧ Clean s' x

lemma Rearranged.refl (h : Listed s L) : Rearranged s L s L :=
  ⟨h, rfl, .refl s, List.Perm.refl _, fun _ => .inl ⟨rfl, rfl, rfl⟩⟩

lemma Rearranged.trans {s'' : PhysMem} {L'' : ℕ → List ℕ} (h : Rearranged s L s' L')
    (h' : Rearranged s' L' s'' L'') : Rearranged s L s'' L'' := by
  refine ⟨h'.listed, h'.total.trans h.total, h.phys.trans h'.phys, h'.cover.trans h.cover,
    fun x => ?_⟩
  rcases h'.same x with hsame | ⟨hx, hclean⟩
  · exact (h.same x).imp (·.trans hsame) fun hx => ⟨hx.1, hx.2.congr hsame⟩
  · exact .inr ⟨h.cover.mem_iff.1 hx, hclean⟩

lemma Listed.mem_freePfns (h : Listed s L) (hp : p ∈ L k) : p ∈ freePfns L :=
  Buddy.mem_freePfns.2
    ⟨⟨p, k⟩, mem_freeBlocks.2 ⟨h.lists.bounded k p hp, hp⟩, Block.base_mem_span _⟩

/-- The lists after a merge. -/
lemma Listed.merge (h : Listed s L) {b x y : ℕ} {K : List Block} (hx : x ∈ L k)
    (hxy : (x = b ∧ y = b + 2 ^ k) ∨ (x = b + 2 ^ k ∧ y = b)) (hy : y ∈ L k)
    (hm : MergeLists s L b k x y s' L' K) : Rearranged s L s' L' := by
  have hpos := Nat.two_pow_pos k
  obtain ⟨s2, hsame1, hsame2⟩ := hm.descr
  have htotal : s'.totalPhysPages = s.totalPhysPages := hsame2.total.trans hsame1.total
  have hlisted : b ∈ L k ∧ b + 2 ^ k ∈ L k := by
    rcases hxy with ⟨rfl, rfl⟩ | ⟨rfl, rfl⟩
    · exact ⟨hx, hy⟩
    · exact ⟨hy, hx⟩
  have hlt := And.intro (h.base_lt k _ hlisted.1) (h.base_lt k _ hlisted.2)
  have hsame : ∀ r, r ≠ b → r ≠ b + 2 ^ k → SameAt s s' r := fun r hb hq =>
    ((hsame1.sameAt r).trans (.mergePages s2 k hb hq)).trans (hsame2.sameAt r)
  refine ⟨h.write (T := [b, b + 2 ^ k]) hm.lists htotal (fun r hr => ?_) (fun r hr => ?_), htotal,
    ?_, ?_, fun r => ?_⟩
  · simp only [mem_cons, not_mem_nil, or_false, not_or] at hr
    refine ⟨hsame r hr.1 hr.2, fun j => ?_⟩
    rw [hm.mem_iff, or_iff_right fun heq => hr.1 heq.1]
    exact and_iff_left (by omega)
  · rcases mem_pair.1 hr with rfl | rfl
    · refine ⟨hlt.1, fun j => ?_⟩
      rw [hm.mem_iff, or_iff_left (by omega), hsame2.flags, hsame2.order,
        pageArray_mergePages_base _ _ (by omega)]
      simp [eq_comm]
    · refine ⟨hlt.2, fun j => ?_⟩
      rw [hm.mem_iff, hsame2.flags, flags_mergePages_other]
      simp only [Bool.false_eq_true, false_and, iff_false]
      omega
  · exact (hsame1.physKept.trans (physKept_mergePages _ _ _ _)).trans hsame2.physKept
  · refine (freePfns_perm hm.after).trans (List.Perm.trans ?_ (freePfns_perm hm.before).symm)
    simp only [flatMap_cons, Block.span_succ, append_assoc]
    rcases hxy with ⟨rfl, rfl⟩ | ⟨rfl, rfl⟩
    · exact List.Perm.refl _
    · rw [← append_assoc, ← append_assoc]
      exact perm_append_comm.append_right _
  · by_cases hb : r = b
    · subst hb
      refine .inr ⟨h.mem_freePfns hlisted.1, ?_⟩
      simp [Clean, hsame2.flags, pageArray_mergePages_base _ _ (show r ≠ r + 2 ^ k by omega)]
    by_cases hq : r = b + 2 ^ k
    · subst hq
      refine .inr ⟨h.mem_freePfns hlisted.2, ?_⟩
      simp [Clean, hsame2.flags, hsame2.order, mergePages]
    · exact .inl (hsame r hb hq)

/-- One level of `buddy_merge`. -/
lemma Listed.mergeOnce (h : Listed s L) (hp : p ∈ L k) : Buddy.mergeOnce s p = some (s, none) ∨
      ∃ s' b L', Buddy.mergeOnce s p = some (s', some b) ∧ b ∈ L' (k + 1) ∧
        Rearranged s L s' L' ∧ (freeBlocks L').length < (freeBlocks L).length := by
  obtain ⟨-, horder⟩ := (h.mem_iff k p).1 hp
  by_cases hmerge : Mergeable s p k
  swap
  · exact .inl (mergeOnce_of_not_mergeable horder hmerge)
  right
  have hq : p ^^^ 2 ^ k ∈ L k := (h.mem_iff _ _).2 hmerge.2.2
  have hpos := Nat.two_pow_pos k
  obtain ⟨s', b, L', K, honce, hb, hbuddy, hm⟩ :=
    mergeOnce_lists h.lists (h.length_le k) hp horder hmerge hq
  refine ⟨s', b, L', honce, (hm.mem_iff _ _).2 (.inl ⟨rfl, rfl⟩), h.merge hp ?_ hq hm, ?_⟩
  · rcases hb with rfl | hb
    · exact .inl ⟨rfl, by rw [hbuddy, if_pos rfl]⟩
    · exact .inr ⟨hb, by rw [hbuddy, if_neg (by omega)]⟩
  · rw [hm.before.length_eq, hm.after.length_eq]
    simp

/-- **Merging covers what was covered**, each page frame as often as before. -/
lemma Listed.buddyMerge (h : Listed s L) (hp : p ∈ L k) :
    ∃ s' r L', Buddy.buddyMerge s p = some (s', r) ∧ Rearranged s L s' L' ∧ (∃ j, r ∈ L' j) ∧
      ((s' = s ∧ L' = L ∧ r = p) ∨ (freeBlocks L').length < (freeBlocks L).length) := by
  have hfuel : maxOrder < k + (maxOrder + 1) := by omega
  unfold Buddy.buddyMerge
  generalize maxOrder + 1 = fuel at hfuel
  induction fuel generalizing s L p k with
  | zero =>
    have := h.lists.bounded k p hp
    omega
  | succ fuel ih =>
    rcases h.mergeOnce hp with hnone | ⟨_, b, _, hsome, hb, h1, hlt⟩
    · exact ⟨s, p, L, by simp [buddyMergeFrom, hnone], .refl h, ⟨k, hp⟩, .inl ⟨rfl, rfl, rfl⟩⟩
    · obtain ⟨s', r, L', hrun, h', hr, hcase⟩ := ih h1.listed hb (by omega)
      refine ⟨s', r, L', by simp [buddyMergeFrom, hsome, hrun], h1.trans h', hr, .inr ?_⟩
      rcases hcase with ⟨-, rfl, -⟩ | hlt'
      · exact hlt
      · exact hlt'.trans hlt

/-! ## Coalescing -/

/-- An invariant that merging keeps, with fewer free blocks after each merge. -/
structure MergeKeeps (I : PhysMem → (ℕ → List ℕ) → Prop) : Prop where
  listed : ∀ {s L}, I s L → Listed s L
  merge : ∀ {s L p k}, I s L → p ∈ L k →
    ∃ s' r L', buddyMerge s p = some (s', r) ∧ I s' L' ∧ (∃ j, r ∈ L' j) ∧
      ((s' = s ∧ L' = L ∧ r = p) ∨ (freeBlocks L').length < (freeBlocks L).length)

variable {I : PhysMem → (ℕ → List ℕ) → Prop}

/-- The walk ends, keeps the invariant, and reports a merge only when there are fewer
free blocks. -/
lemma coalesceWalk_spec (hI : MergeKeeps I) {fuel : ℕ} {head : Option ℕ} {l : List ℕ}
    (h : I s L) (hl : ∃ l1, L k = l1 ++ l) (hhead : IsList s.next head l)
    (hfuel : (freeBlocks L).length * (buddyMaxPages + 1) + l.length < fuel) :
    ∃ s' L' merged, coalesceWalk fuel s head = some (s', merged) ∧ I s' L' ∧
      (merged = true → (freeBlocks L').length < (freeBlocks L).length) := by
  induction fuel generalizing s L head l k with
  | zero => omega
  | succ fuel ih =>
    cases l with
    | nil =>
      obtain rfl : head = none := hhead
      exact ⟨s, L, false, rfl, h, by simp⟩
    | cons a l =>
      obtain ⟨rfl, hnext⟩ := hhead
      obtain ⟨l1, hl1⟩ := hl
      have ha : a ∈ L k := by simp [hl1]
      simp only [length_cons] at hfuel
      obtain ⟨s1, r, L1, hmerge, h1, ⟨j, hr⟩, hcase⟩ := hI.merge h ha
      have hstep : coalesceWalk (fuel + 1) s (some a) =
          if r ≠ a then some (s1, true) else coalesceWalk fuel s1 (s1.next a) := by
        simp [coalesceWalk, ((hI.listed h).mem_iff k a).1 ha, hmerge]
      rw [hstep]
      rcases hcase with ⟨rfl, rfl, rfl⟩ | hlt
      · -- nothing to merge: on to the next block of the list
        rw [if_neg (by simp)]
        exact ih (k := k) h ⟨l1 ++ [r], by simp [hl1]⟩ hnext (by omega)
      · by_cases hra : r = a
        · -- merged in place: on to the next block of the list it has moved to
          subst hra
          rw [if_neg (by simp)]
          obtain ⟨l2, _, hl3⟩ := append_of_mem hr
          have hlen : (L1 j).length ≤ buddyMaxPages := (hI.listed h1).length_le j
          have hlist := (hI.listed h1).lists.isList j
          rw [hl3] at hlist hlen
          simp only [length_append, length_cons] at hlen
          have hmul := Nat.mul_le_mul_right (buddyMaxPages + 1) (Nat.succ_le_of_lt hlt)
          rw [Nat.succ_mul] at hmul
          obtain ⟨s', L', merged, hrun, h', hmerged⟩ :=
            ih (k := j) h1 ⟨l2 ++ [r], by simp [hl3]⟩ hlist.suffix.2 (by omega)
          exact ⟨s', L', merged, hrun, h', fun hm => (hmerged hm).trans hlt⟩
        · rw [if_pos hra]
          exact ⟨s1, L1, true, rfl, h1, fun _ => hlt⟩

lemma coalesceOrder_spec (hI : MergeKeeps I) {fuel : ℕ} (h : I s L) (k : ℕ)
    (hfuel : (freeBlocks L).length < fuel) :
    ∃ s' L', coalesceOrder fuel s k = some s' ∧ I s' L' := by
  induction fuel generalizing s L with
  | zero => omega
  | succ fuel ih =>
    have hlisted := hI.listed h
    have hwalk : (freeBlocks L).length * (buddyMaxPages + 1) + (L k).length < walkFuel := by
      have hmul := Nat.mul_le_mul_right (buddyMaxPages + 1) hlisted.length_freeBlocks_le
      have := hlisted.length_le k
      rw [walkFuel, Nat.succ_mul]
      omega
    obtain ⟨s1, L1, merged, hrun, h1, hmerged⟩ :=
      coalesceWalk_spec hI h ⟨[], rfl⟩ (hlisted.lists.isList k) hwalk
    cases merged with
    | false => exact ⟨s1, L1, by simp [coalesceOrder, hrun], h1⟩
    | true =>
      obtain ⟨s', L', hrest, h'⟩ := ih h1 (by have := hmerged rfl; omega)
      exact ⟨s', L', by simp [coalesceOrder, hrun, hrest], h'⟩

/-- **`buddy_coalesce_all`** ends and keeps what merging keeps. -/
lemma buddyCoalesceAll_spec (hI : MergeKeeps I) (h : I s L) :
    ∃ s' L', buddyCoalesceAll s = some s' ∧ I s' L' := by
  unfold buddyCoalesceAll
  induction List.range maxOrder generalizing s L with
  | nil => exact ⟨s, L, rfl, h⟩
  | cons k _ ih =>
    obtain ⟨_, _, hrun, h1⟩ := coalesceOrder_spec hI h k
      (Nat.lt_succ_of_le (hI.listed h).length_freeBlocks_le)
    obtain ⟨s', L', hrest, h'⟩ := ih h1
    exact ⟨s', L', by simp [foldlM_cons, hrun, hrest], h'⟩

/-- Coalescing covers what was covered. -/
lemma Listed.buddyCoalesceAll (h : Listed s L) :
    ∃ s' L', buddyCoalesceAll s = some s' ∧ Rearranged s L s' L' := by
  refine buddyCoalesceAll_spec (I := Rearranged s L) ⟨fun hI => hI.listed, fun hI hp => ?_⟩
    (.refl h)
  obtain ⟨s1, r, L1, hmerge, h1, hrest⟩ := hI.listed.buddyMerge hp
  exact ⟨s1, r, L1, hmerge, hI.trans h1, hrest⟩

end Aurora.Buddy
